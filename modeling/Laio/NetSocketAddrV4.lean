import Laio.NetIpv4Addr
import Laio.NetSocketAddrV6
import Mathlib.Logic.Function.Basic

/-! # `SocketAddrV4`: fields, copies and moves

Any number of objects is constructed, changed, copied and moved in any order. Every object
that still holds an address holds the values last given for its fields. -/
namespace NetSocketAddrV4

open LibExecutions LibWords NetIpv4Addr
open NetSocketAddrV6 (networkOrder byteSwap_eq_networkOrder)

def AF_INET : UInt16 := 2

structure SockaddrIn where
  sinFamily : UInt16
  sinPort : UInt16
  sinAddr : InAddr
  sinZero : Vector UInt8 8

structure SocketAddrV4 where
  inner : SockaddrIn

namespace SocketAddrV4

/-- The constructor writes the port with the two shifts the other way round. -/
def ofParts (ip : Ipv4Addr) (port : UInt16) : SocketAddrV4 :=
  ⟨⟨AF_INET, (port.toUInt32 >>> 8 ||| port.toUInt32 <<< 8).toUInt16, ip.rawIpv4Address,
    .replicate 8 0⟩⟩

/-- The move constructor: the new object, and what it leaves in the old one. -/
def moveConstruct (other : SocketAddrV4) : SocketAddrV4 × SocketAddrV4 :=
  (⟨other.inner⟩, ⟨⟨0, 0, ⟨0, 0, 0, 0⟩, .replicate 8 0⟩⟩)

/-- `operator==` compares the raw ports and the raw 32-bit addresses. -/
instance : BEq SocketAddrV4 where
  beq lhs rhs := lhs.inner.sinPort == rhs.inner.sinPort &&
    lhs.inner.sinAddr.sAddr == rhs.inner.sinAddr.sAddr

def ip (x : SocketAddrV4) : Ipv4Addr := ⟨x.inner.sinAddr⟩

def setIp (x : SocketAddrV4) (ip : Ipv4Addr) : SocketAddrV4 :=
  ⟨{ x.inner with sinAddr := ip.rawIpv4Address }⟩

def port (x : SocketAddrV4) : UInt16 := byteSwap x.inner.sinPort

def setPort (x : SocketAddrV4) (port : UInt16) : SocketAddrV4 :=
  ⟨{ x.inner with sinPort := byteSwap port }⟩

end SocketAddrV4

structure Given where
  ip : Ipv4Addr
  port : UInt16

/-- Both getters return what was last given, and the raw structure is well formed. -/
structure FieldsKept (x : SocketAddrV4) (g : Given) : Prop where
  ip : x.ip = g.ip
  port : x.port = g.port
  family : x.inner.sinFamily = AF_INET
  portField : x.inner.sinPort = networkOrder g.port
  zero : x.inner.sinZero = .replicate 8 0

theorem constructor_port (port : UInt16) :
    (port.toUInt32 >>> 8 ||| port.toUInt32 <<< 8).toUInt16 = byteSwap port := by
  rw [UInt32.or_comm, byteSwap]

theorem fieldsKept_ofParts (g : Given) : FieldsKept (.ofParts g.ip g.port) g := by
  have hport : (SocketAddrV4.ofParts g.ip g.port).inner.sinPort = byteSwap g.port :=
    constructor_port g.port
  refine ⟨rfl, ?_, rfl, hport.trans (byteSwap_eq_networkOrder _), rfl⟩
  rw [SocketAddrV4.port, hport, byteSwap_byteSwap]

theorem FieldsKept.setIp {x : SocketAddrV4} {g : Given} (h : FieldsKept x g) (ip : Ipv4Addr) :
    FieldsKept (x.setIp ip) { g with ip := ip } :=
  ⟨rfl, h.port, h.family, h.portField, h.zero⟩

theorem FieldsKept.setPort {x : SocketAddrV4} {g : Given} (h : FieldsKept x g) (port : UInt16) :
    FieldsKept (x.setPort port) { g with port := port } :=
  ⟨h.ip, byteSwap_byteSwap port, h.family, byteSwap_eq_networkOrder port, h.zero⟩

theorem beq_iff (x y : SocketAddrV4) :
    (x == y) = true ↔ x.ip = y.ip ∧ x.port = y.port := by
  have hport : x.port = y.port ↔ x.inner.sinPort = y.inner.sinPort := byteSwap_injective.eq_iff
  rw [hport, and_comm]
  change (x.inner.sinPort == y.inner.sinPort && x.ip == y.ip) = true ↔ _
  rw [Bool.and_eq_true, beq_iff_eq, beq_iff_eq]

variable {ι : Type*} [DecidableEq ι]

structure State (ι : Type*) where
  object : ι → SocketAddrV4
  given : ι → Option Given

inductive Event (ι : Type*) where
  | construct (x : ι) (ip : Ipv4Addr) (port : UInt16)
  | setIp (x : ι) (ip : Ipv4Addr)
  | setPort (x : ι) (port : UInt16)
  | copy (x source : ι)
  | move (x source : ι)

def Event.Allowed : Event ι → Prop
  | .copy x source => x ≠ source
  | .move x source => x ≠ source
  | _ => True

def State.store (s : State ι) (x : ι) (value : SocketAddrV4) (given : Option Given) : State ι :=
  ⟨Function.update s.object x value, Function.update s.given x given⟩

def State.next (s : State ι) : Event ι → State ι
  | .construct x ip port => s.store x (.ofParts ip port) (some ⟨ip, port⟩)
  | .setIp x ip =>
    s.store x ((s.object x).setIp ip) ((s.given x).map fun g => { g with ip := ip })
  | .setPort x port =>
    s.store x ((s.object x).setPort port) ((s.given x).map fun g => { g with port := port })
  | .copy x source => s.store x (s.object source) (s.given source)
  | .move x source =>
    let (new, left) := (s.object source).moveConstruct
    (s.store source left none).store x new (s.given source)

def Step (s : State ι) (e : Event ι) (t : State ι) : Prop := e.Allowed ∧ t = s.next e

def Kept (s : State ι) : Prop := ∀ x g, s.given x = some g → FieldsKept (s.object x) g

theorem Kept.store {s : State ι} (h : Kept s) (x : ι) {value : SocketAddrV4}
    {given : Option Given} (hv : ∀ g, given = some g → FieldsKept value g) :
    Kept (s.store x value given) := by
  intro y g hy
  change Function.update s.given x given y = some g at hy
  change FieldsKept (Function.update s.object x value y) g
  by_cases hyx : y = x
  · subst hyx
    rw [Function.update_self] at hy ⊢
    exact hv g hy
  · rw [Function.update_of_ne hyx] at hy ⊢
    exact h y g hy

theorem kept_step {s t : State ι} {e : Event ι} (h : Kept s) (hs : Step s e t) : Kept t := by
  obtain ⟨_, rfl⟩ := hs
  cases e with
  | construct x ip port =>
    have hx : ∀ g, some (Given.mk ip port) = some g → FieldsKept (.ofParts ip port) g := by
      rintro g ⟨⟩
      exact fieldsKept_ofParts ⟨ip, port⟩
    exact h.store x hx
  | setIp x ip =>
    refine h.store x fun g hg => ?_
    obtain ⟨g, hx, rfl⟩ := Option.map_eq_some_iff.mp hg
    exact (h x g hx).setIp ip
  | setPort x port =>
    refine h.store x fun g hg => ?_
    obtain ⟨g, hx, rfl⟩ := Option.map_eq_some_iff.mp hg
    exact (h x g hx).setPort port
  | copy x source => exact h.store x fun g hg => h source g hg
  | move x source =>
    have hleft : Kept (s.store source (s.object source).moveConstruct.2 none) :=
      h.store source fun g hg => by cases hg
    exact hleft.store x fun g hg => h source g hg

/-- Objects that nobody has constructed yet; their memory is arbitrary. -/
def unconstructed (memory : ι → SocketAddrV4) : State ι := ⟨memory, fun _ => none⟩

/-- However objects are constructed, changed, copied and moved, every object returns the
values last given for its fields, and any two are equal exactly if the values agree. -/
theorem fields_kept_apart :
    (∀ (memory : ι → SocketAddrV4) (es : List (Event ι)),
      HoldsAlong Step Kept (unconstructed memory) es) ∧
    ∀ x y : SocketAddrV4, (x == y) = true ↔ x.ip = y.ip ∧ x.port = y.port := by
  refine ⟨?_, beq_iff⟩
  intro memory es es₁ t _ ht
  exact ht.invariant (fun s e t hs hst => kept_step hs hst) fun x g hg => by cases hg

end NetSocketAddrV4
