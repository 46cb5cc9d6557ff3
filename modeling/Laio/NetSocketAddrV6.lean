import Laio.LibExecutions
import Laio.NetIpv6Addr

/-! # `SocketAddrV6`: fields and setters

The object is compared with the values last given for its fields. Three setters keep the
correspondence; the one for the flow information writes into the port. -/
namespace NetSocketAddrV6

open LibExecutions LibWords NetIpv6Addr

def AF_INET6 : UInt16 := 23

structure SockaddrIn6 where
  sin6Family : UInt16
  sin6Port : UInt16
  sin6Flowinfo : UInt32
  sin6Addr : In6Addr
  sin6ScopeId : UInt32

structure SocketAddrV6 where
  inner : SockaddrIn6

namespace SocketAddrV6

def ofParts (ip : Ipv6Addr) (port : UInt16) (flowInfo scopeId : UInt32) : SocketAddrV6 :=
  ⟨⟨AF_INET6, byteSwap port, flowInfo, ip.rawIpv6Address, scopeId⟩⟩

def ip (x : SocketAddrV6) : Ipv6Addr := ⟨x.inner.sin6Addr⟩

def setIp (x : SocketAddrV6) (ip : Ipv6Addr) : SocketAddrV6 :=
  ⟨{ x.inner with sin6Addr := ip.rawIpv6Address }⟩

def port (x : SocketAddrV6) : UInt16 := byteSwap x.inner.sin6Port

def setPort (x : SocketAddrV6) (port : UInt16) : SocketAddrV6 :=
  ⟨{ x.inner with sin6Port := byteSwap port }⟩

def flowInfo (x : SocketAddrV6) : UInt32 := x.inner.sin6Flowinfo

/-- The overload of `flow_info` with an argument. It narrows it into the port field. -/
def setFlowInfo (x : SocketAddrV6) (flowInfo : UInt32) : SocketAddrV6 :=
  ⟨{ x.inner with sin6Port := flowInfo.toUInt16 }⟩

def scopeId (x : SocketAddrV6) : UInt32 := x.inner.sin6ScopeId

def setScopeId (x : SocketAddrV6) (scopeId : UInt32) : SocketAddrV6 :=
  ⟨{ x.inner with sin6ScopeId := scopeId }⟩

end SocketAddrV6

inductive Call where
  | setIp (ip : Ipv6Addr)
  | setPort (port : UInt16)
  | flowInfo (flowInfo : UInt32)
  | setScopeId (scopeId : UInt32)

structure Given where
  ip : Ipv6Addr
  port : UInt16
  flowInfo : UInt32
  scopeId : UInt32

def Given.update (g : Given) : Call → Given
  | .setIp ip => { g with ip := ip }
  | .setPort port => { g with port := port }
  | .flowInfo flowInfo => { g with flowInfo := flowInfo }
  | .setScopeId scopeId => { g with scopeId := scopeId }

def SocketAddrV6.update (x : SocketAddrV6) : Call → SocketAddrV6
  | .setIp ip => x.setIp ip
  | .setPort port => x.setPort port
  | .flowInfo flowInfo => x.setFlowInfo flowInfo
  | .setScopeId scopeId => x.setScopeId scopeId

structure State where
  addr : SocketAddrV6
  given : Given

def constructed (g : Given) : State := ⟨.ofParts g.ip g.port g.flowInfo g.scopeId, g⟩

def Step (s : State) (e : Call) (t : State) : Prop := t = ⟨s.addr.update e, s.given.update e⟩

/-- The two bytes in network order, as a little-endian host stores them in a word. -/
def networkOrder (port : UInt16) : UInt16 := leWord (highByte port) (lowByte port)

/-- Every getter returns what was last given for its field, and the raw structure is well
formed. -/
structure FieldsKept (s : State) : Prop where
  ip : s.addr.ip = s.given.ip
  port : s.addr.port = s.given.port
  flowInfo : s.addr.flowInfo = s.given.flowInfo
  scopeId : s.addr.scopeId = s.given.scopeId
  family : s.addr.inner.sin6Family = AF_INET6
  portField : s.addr.inner.sin6Port = networkOrder s.given.port

/-- A flow information that is the last given one already, and whose low half is the port
in network order. -/
def Harmless (s : State) (e : Call) : Prop :=
  ∀ x, e = .flowInfo x → x = s.given.flowInfo ∧ x.toUInt16 = networkOrder s.given.port

theorem byteSwap_eq_networkOrder (port : UInt16) : byteSwap port = networkOrder port := by
  have h := byteSwap_leWord (lowByte port) (highByte port)
  rwa [leWord_bytes] at h

theorem fieldsKept_constructed (g : Given) : FieldsKept (constructed g) :=
  ⟨rfl, byteSwap_byteSwap _, rfl, rfl, rfl, byteSwap_eq_networkOrder _⟩

theorem fieldsKept_step (s : State) (e : Call) (t : State) (h : FieldsKept s)
    (hs : Step s e t) : FieldsKept t ↔ Harmless s e := by
  subst hs
  cases e with
  | setIp ip =>
    exact iff_of_true ⟨rfl, h.port, h.flowInfo, h.scopeId, h.family, h.portField⟩
      fun x hx => by cases hx
  | setPort port =>
    exact iff_of_true ⟨h.ip, byteSwap_byteSwap _, h.flowInfo, h.scopeId, h.family,
      byteSwap_eq_networkOrder _⟩ fun x hx => by cases hx
  | setScopeId scopeId =>
    exact iff_of_true ⟨h.ip, h.port, h.flowInfo, rfl, h.family, h.portField⟩
      fun x hx => by cases hx
  | flowInfo x =>
    constructor
    · rintro ht y hy
      cases hy
      exact ⟨ht.flowInfo.symm.trans h.flowInfo, ht.portField⟩
    · intro hx
      obtain ⟨hflow, hport⟩ := hx x rfl
      refine ⟨h.ip, ?_, h.flowInfo.trans hflow.symm, h.scopeId, h.family, hport⟩
      change byteSwap x.toUInt16 = s.given.port
      rw [hport, ← byteSwap_eq_networkOrder, byteSwap_byteSwap]

/-- After any calls of the setters the getters return what was last given, exactly if no
call of the flow information setter changes anything. -/
theorem fields_independent_iff (g : Given) (calls : List Call) :
    HoldsAlong Step FieldsKept (constructed g) calls ↔
      MeetsAlong Step Harmless (constructed g) calls :=
  holdsAlong_iff_meetsAlong (fun _ => True) (fun _ _ _ _ _ => trivial)
    (fun s e t _ h hs => fieldsKept_step s e t h hs) trivial (fieldsKept_constructed g)

theorem flow_info_lost :
    ¬ ∀ g calls, HoldsAlong Step FieldsKept (constructed g) calls := by
  intro h
  have hkept := h ⟨.ofSegments 0 0 0 0 0 0 0 1, 80, 0, 0⟩ [.flowInfo 7] _ _
    (List.prefix_refl _) (.single rfl)
  exact absurd hkept.flowInfo (by decide)

end NetSocketAddrV6
