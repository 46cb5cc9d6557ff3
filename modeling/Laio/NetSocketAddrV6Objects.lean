import Laio.LibObjects
import Laio.NetSocketAddrV6

/-! # `SocketAddrV6` objects

Every constructor, copies and moves. An object stands for five values in host order, and the
setter for the flow information replaces the port among them. -/
namespace NetSocketAddrV6Objects

open LibObjects LibWords NetIpv6Addr NetSocketAddrV6

/-- The default constructor, and what the move constructor writes into its source. -/
def zeroed : SocketAddrV6 := ⟨⟨0, 0, 0, ⟨Vector.replicate 16 0⟩, 0⟩⟩

def moveConstruct (other : SocketAddrV6) : SocketAddrV6 × SocketAddrV6 := (⟨other.inner⟩, zeroed)

def addrClass : ValueClass Call SocketAddrV6 where
  call := SocketAddrV6.update
  moved other := (moveConstruct other).2

structure Endpoint where
  family : UInt16
  ip : Ipv6Addr
  port : UInt16
  flowInfo : UInt32
  scopeId : UInt32

/-- A call replaces one value; that of the flow information setter is the port. -/
def endpointClass : ValueClass Call Endpoint where
  call e
    | .setIp ip => { e with ip := ip }
    | .setPort port => { e with port := port }
    | .flowInfo flowInfo => { e with port := byteSwap flowInfo.toUInt16 }
    | .setScopeId scopeId => { e with scopeId := scopeId }
  moved _ := ⟨0, .ofSegments 0 0 0 0 0 0 0 0, 0, 0, 0⟩

def endpoint (x : SocketAddrV6) : Endpoint :=
  ⟨x.inner.sin6Family, x.ip, x.port, x.flowInfo, x.scopeId⟩

theorem endpoint_zeroed : endpoint zeroed = ⟨0, .ofSegments 0 0 0 0 0 0 0 0, 0, 0, 0⟩ := by
  rfl

theorem endpoint_ofParts (ip : Ipv6Addr) (port : UInt16) (flowInfo scopeId : UInt32) :
    endpoint (.ofParts ip port flowInfo scopeId) = ⟨AF_INET6, ip, port, flowInfo, scopeId⟩ := by
  change Endpoint.mk _ _ (byteSwap (byteSwap port)) _ _ = _
  rw [byteSwap_byteSwap]
  rfl

theorem represents : Represents addrClass endpointClass endpoint where
  call x c := by
    cases c with
    | setIp ip => rfl
    | setPort port =>
      change Endpoint.mk _ _ (byteSwap (byteSwap port)) _ _ = _
      rw [byteSwap_byteSwap]
      rfl
    | flowInfo flowInfo => rfl
    | setScopeId scopeId => rfl
  moved _ := endpoint_zeroed

theorem endpoint_bijective : Function.Bijective endpoint := by
  constructor
  · rintro ⟨⟨family, port, flowInfo, addr, scopeId⟩⟩
      ⟨⟨family', port', flowInfo', addr', scopeId'⟩⟩ h
    obtain ⟨rfl, hip, hport, rfl, rfl⟩ := Endpoint.mk.inj h
    obtain rfl : addr = addr' := Ipv6Addr.mk.inj hip
    obtain rfl : port = port' := byteSwap_injective hport
    rfl
  · rintro ⟨family, ip, port, flowInfo, scopeId⟩
    refine ⟨⟨⟨family, byteSwap port, flowInfo, ip.rawIpv6Address, scopeId⟩⟩, ?_⟩
    change Endpoint.mk _ _ (byteSwap (byteSwap port)) _ _ = _
    rw [byteSwap_byteSwap]
    rfl

def FlowInfoFrom (S : Set UInt32) (x : SocketAddrV6) : Prop := x.flowInfo = 0 ∨ x.flowInfo ∈ S

theorem flowInfo_invariant (S : Set UInt32) : Invariant addrClass (FlowInfoFrom S) where
  call x c h := by
    cases c <;> exact h
  moved x h := Or.inl rfl

/-- A new object stands for what its constructor was given: nothing, the parts, or any five
values through a raw structure. However objects are constructed, set, copied and moved, each
of them stands for the values last given, where the flow information setter counts as a setter
of the port, and nothing but a constructor ever determines the flow information of an object. -/
theorem socket_addr_objects {ι : Type*} [DecidableEq ι] :
    endpoint zeroed = ⟨0, .ofSegments 0 0 0 0 0 0 0 0, 0, 0, 0⟩ ∧
    (∀ ip port flowInfo scopeId, endpoint (.ofParts ip port flowInfo scopeId) =
      ⟨AF_INET6, ip, port, flowInfo, scopeId⟩) ∧
    (∀ (memory : ι → SocketAddrV6) (program : List (Event ι Call SocketAddrV6)),
      endpoint ∘ addrClass.run memory program =
        endpointClass.run (endpoint ∘ memory) (program.map (Event.map endpoint))) ∧
    Function.Bijective endpoint ∧
    ∀ (S : Set UInt32) (memory : ι → SocketAddrV6) (program : List (Event ι Call SocketAddrV6)),
      (∀ x, FlowInfoFrom S (memory x)) → Constructs (FlowInfoFrom S) program →
        ∀ x, FlowInfoFrom S (addrClass.run memory program x) :=
  ⟨endpoint_zeroed, endpoint_ofParts, represents.run, endpoint_bijective,
    fun S _ _ hmemory hprogram => (flowInfo_invariant S).run hmemory hprogram⟩

end NetSocketAddrV6Objects
