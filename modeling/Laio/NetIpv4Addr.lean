import Laio.NetIpv6Addr

/-! # `Ipv4Addr`: storage, octets, text, classes, and the two embeddings into IPv6

The address is four bytes of the Windows union; `S_addr` is their little-endian view. -/
namespace NetIpv4Addr

open LibWords NetIpv6Addr

structure InAddr where
  sB1 : UInt8
  sB2 : UInt8
  sB3 : UInt8
  sB4 : UInt8
  deriving DecidableEq, Repr

def InAddr.sAddr (u : InAddr) : UInt32 := leDWord u.sB1 u.sB2 u.sB3 u.sB4

structure Ipv4Addr where
  rawIpv4Address : InAddr

def Ipv4Addr.ofOctets (a b c d : UInt8) : Ipv4Addr := ⟨⟨a, b, c, d⟩⟩

/-- `operator==` compares the raw 32-bit words. -/
instance : BEq Ipv4Addr where
  beq lhs rhs := lhs.rawIpv4Address.sAddr == rhs.rawIpv4Address.sAddr

def Ipv4Addr.octets (addr : Ipv4Addr) : UInt8 × UInt8 × UInt8 × UInt8 :=
  let u := addr.rawIpv4Address
  (u.sB1, u.sB2, u.sB3, u.sB4)

/-- `operator<`. The first octet is compared with the second one of the other side, and
no octet takes precedence over the next. -/
def Ipv4Addr.lt (lhs rhs : Ipv4Addr) : Bool :=
  let (lhsA, lhsB, lhsC, lhsD) := lhs.octets
  let (_, rhsB, rhsC, rhsD) := rhs.octets
  lhsA ≤ rhsB && lhsB ≤ rhsB && lhsC ≤ rhsC && lhsD < rhsD

instance : LawfulBEq Ipv4Addr where
  eq_of_beq {lhs rhs} h := by
    obtain ⟨⟨a, b, c, d⟩⟩ := lhs
    obtain ⟨⟨a', b', c', d'⟩⟩ := rhs
    have hw : leDWord a b c d = leDWord a' b' c' d' := eq_of_beq h
    obtain ⟨rfl, rfl, rfl, rfl⟩ := leDWord_inj.mp hw
    rfl
  rfl {addr} := beq_self_eq_true addr.rawIpv4Address.sAddr

@[simp] theorem Ipv4Addr.octets_ofOctets (a b c d : UInt8) :
    (ofOctets a b c d).octets = (a, b, c, d) := rfl

theorem Ipv4Addr.exists_ofOctets (addr : Ipv4Addr) : ∃ a b c d, addr = ofOctets a b c d :=
  ⟨_, _, _, _, rfl⟩

def Ipv4Addr.toStdString (fmt : Fmt) (addr : Ipv4Addr) : Text :=
  let (a, b, c, d) := addr.octets
  formatQuad fmt a b c d

/-- The local variables of `Ipv4Addr::from`. -/
structure Scanner where
  buf : Vector ℕ 4
  pos : ℕ
  octet : ℕ
  deriving DecidableEq, Repr

/-- One pass through the loop body. The array is indexed only under the guard
`octet < 4`; the value test comes after the write, as in the source. -/
def Scanner.step (s : Scanner) (c : Char) : Option Scanner :=
  if h : ('0' ≤ c ∧ c ≤ '9') ∧ s.pos < 3 ∧ s.octet < 4 then
    let value := s.buf.get ⟨s.octet, h.2.2⟩ * 10 + (c.toNat - '0'.toNat)
    let buf := s.buf.set s.octet value h.2.2
    if buf.get ⟨s.octet, h.2.2⟩ > 255 then none
    else some { s with buf := buf, pos := s.pos + 1 }
  else if c = '.' ∧ s.pos > 0 ∧ s.pos < 4 ∧ s.octet < 3 then
    some { s with pos := 0, octet := s.octet + 1 }
  else
    none

theorem Scanner.step_digit_eq (s : Scanner) (c : Char)
    (h : ('0' ≤ c ∧ c ≤ '9') ∧ s.pos < 3 ∧ s.octet < 4) :
    s.step c =
      if s.buf.get ⟨s.octet, h.2.2⟩ * 10 + (c.toNat - '0'.toNat) > 255 then none
      else some ⟨s.buf.set s.octet (s.buf.get ⟨s.octet, h.2.2⟩ * 10 + (c.toNat - '0'.toNat)) h.2.2,
        s.pos + 1, s.octet⟩ := by
  have hread : ∀ v, (s.buf.set s.octet v h.2.2).get ⟨s.octet, h.2.2⟩ = v :=
    fun v => Vector.getElem_set_self h.2.2
  rw [Scanner.step, dif_pos h]
  simp only [hread]

def Scanner.start : Scanner := ⟨#v[0, 0, 0, 0], 0, 0⟩

/-- `Ipv4Addr::from`. Nothing is checked when the input ends. -/
def Ipv4Addr.fromString (ipv4Address : Text) : Option Ipv4Addr := do
  let s ← ipv4Address.foldlM Scanner.step Scanner.start
  some (.ofOctets (UInt8.ofNat (s.buf.get 0)) (UInt8.ofNat (s.buf.get 1))
    (UInt8.ofNat (s.buf.get 2)) (UInt8.ofNat (s.buf.get 3)))

def Ipv4Addr.toIpv6Compatible (addr : Ipv4Addr) : Ipv6Addr :=
  let (a, b, c, d) := addr.octets
  .ofBytes 0 0 0 0 0 0 0 0 0 0 0 0 a b c d

def Ipv4Addr.toIpv6Mapped (addr : Ipv4Addr) : Ipv6Addr :=
  let (a, b, c, d) := addr.octets
  .ofBytes 0 0 0 0 0 0 0 0 0 0 0xff 0xff a b c d

namespace Ipv4Addr

variable (addr : Ipv4Addr)

def isUnspecified : Bool := addr.rawIpv4Address.sAddr == 0x00000000

def isLoopback : Bool := addr.rawIpv4Address.sB1 == 0x7f

def isPrivate : Bool :=
  let (a, b, _, _) := addr.octets
  if a = 10 then true
  else if a = 172 then 16 ≤ b && b ≤ 31
  else if a = 192 then b == 168
  else false

def isLinkLocal : Bool :=
  let (a, b, _, _) := addr.octets
  a == 169 && b == 254

def isBroadcast : Bool := addr.rawIpv4Address.sAddr == 0xffffffff

def isDocumentation : Bool :=
  let net := addr.rawIpv4Address.sAddr &&& 0x00ffffff
  if net = 0x000200c0 then true
  else if net = 0x006433c6 then true
  else if net = 0x007100cb then true
  else false

def isShared : Bool :=
  addr.rawIpv4Address.sB1 == 100 && addr.rawIpv4Address.sB2 &&& 0b11000000 == 0b01000000

def isIetfProtocolAssignment : Bool :=
  let (a, b, c, _) := addr.octets
  a == 192 && b == 0 && c == 0

def isReserved : Bool := addr.rawIpv4Address.sB1 &&& 240 == 240 && !addr.isBroadcast

def isBenchmarking : Bool :=
  addr.rawIpv4Address.sB1 == 198 && addr.rawIpv4Address.sB2 &&& 0xfe == 18

def isMulticast : Bool :=
  let a := addr.rawIpv4Address.sB1
  224 ≤ a && a ≤ 239

def isGlobal : Bool :=
  if addr.rawIpv4Address.sAddr = 0x090000c0 ∨ addr.rawIpv4Address.sAddr = 0x0a0000c0 then
    true
  else
    !addr.isPrivate && !addr.isLoopback && !addr.isLinkLocal && !addr.isBroadcast &&
      !addr.isDocumentation && !addr.isShared && !addr.isIetfProtocolAssignment &&
      !addr.isReserved && !addr.isBenchmarking && addr.rawIpv4Address.sB1 != 0

end Ipv4Addr

/-- `Ipv6Addr::to_ipv4`, which tests the prefix with its own copy of the condition. -/
def toIpv4 (addr : Ipv6Addr) : Option Ipv4Addr :=
  let (a, b, c, d, e, f, g, h) := addr.segments
  if a = 0 ∧ b = 0 ∧ c = 0 ∧ d = 0 ∧ e = 0 ∧ (f = 0 ∨ f = 0xffff) then
    some (.ofOctets (highByte g) (lowByte g) (highByte h) (lowByte h))
  else
    none

end NetIpv4Addr
