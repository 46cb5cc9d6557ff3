import Laio.IocpBatching
import Laio.IocpNarrowing
import Laio.IocpOverlappedObject
import Laio.IocpPorts
import Laio.IocpTrace
import Laio.IocpTraffic
import Laio.IocpUniquePtr
import Laio.NetIoSpanMut
import Laio.NetIpEmbeddedText
import Laio.NetIpMixedOrder
import Laio.NetIpNumeric
import Laio.NetIpv4Classes
import Laio.NetIpv4Scanner
import Laio.NetIpv6Canonical
import Laio.NetIpv6Shortest
import Laio.NetIpv6Views
import Laio.NetSocketAddrV4
import Laio.NetSocketAddrV6Equality
import Laio.NetSocketAddrV6Objects
