import Laio.NetSocketAddrV6
import Mathlib.Data.Set.Insert
import Mathlib.Logic.Function.Basic

/-! # Equality of IPv6 socket addresses

The comparison of the address arrays decays to a comparison of where they are stored, so
objects are modelled with their addresses. -/
namespace NetSocketAddrV6Equality

open LibWords NetIpv6Addr NetSocketAddrV6

abbrev Addr := ℕ

abbrev Memory := Addr → SocketAddrV6

/-- Where the array `inner_.sin6_addr.u.Word` of an object starts. -/
def wordArray (x : Addr) : Addr := x + 8

/-- `operator==` -/
def equal (m : Memory) (lhs rhs : Addr) : Bool :=
  (m lhs).inner.sin6Port == (m rhs).inner.sin6Port && wordArray lhs == wordArray rhs

def copyConstruct (m : Memory) (x other : Addr) : Memory := Function.update m x (m other)

def SameValue (x y : SocketAddrV6) : Prop := (x.ip == y.ip) = true ∧ x.port = y.port

/-- What the comparison should be on the objects in `S`. -/
structure EqualityByValue (m : Memory) (S : Set Addr) : Prop where
  by_value : ∀ x ∈ S, ∀ y ∈ S, equal m x y = true ↔ SameValue (m x) (m y)
  copies : ∀ x ∈ S, ∀ y ∈ S, m y = m x → equal m y x = true
  refl : ∀ x ∈ S, equal m x x = true
  symm : ∀ x ∈ S, ∀ y ∈ S, equal m x y = true → equal m y x = true
  trans : ∀ x ∈ S, ∀ y ∈ S, ∀ z ∈ S, equal m x y = true → equal m y z = true → equal m x z = true
  values_only : ∀ x ∈ S, ∀ y ∈ S, ∀ x' ∈ S, ∀ y' ∈ S, m x = m x' → m y = m y' →
    equal m x y = equal m x' y'

theorem SameValue.refl (x : SocketAddrV6) : SameValue x x := ⟨beq_self_eq_true _, rfl⟩

theorem SameValue.symm {x y : SocketAddrV6} (h : SameValue x y) : SameValue y x :=
  ⟨by rw [eq_of_beq h.1]; exact beq_self_eq_true _, h.2.symm⟩

theorem SameValue.trans {x y z : SocketAddrV6} (h : SameValue x y) (k : SameValue y z) :
    SameValue x z :=
  ⟨by rw [eq_of_beq h.1]; exact k.1, h.2.trans k.2⟩

theorem equal_iff (m : Memory) (x y : Addr) : equal m x y = true ↔ x = y := by
  rw [equal, Bool.and_eq_true, beq_iff_eq, beq_iff_eq, wordArray, wordArray,
    Nat.add_right_cancel_iff]
  constructor
  · exact fun h => h.2
  · rintro rfl
    exact ⟨rfl, rfl⟩

theorem EqualityByValue.of_by_value {m : Memory} {S : Set Addr}
    (h : ∀ x ∈ S, ∀ y ∈ S, equal m x y = true ↔ SameValue (m x) (m y)) : EqualityByValue m S where
  by_value := h
  copies x hx y hy hcopy := by
    rw [h y hy x hx, hcopy]
    exact .refl _
  refl x hx := (h x hx x hx).mpr (.refl _)
  symm x hx y hy hxy := (h y hy x hx).mpr ((h x hx y hy).mp hxy).symm
  trans x hx y hy z hz hxy hyz :=
    (h x hx z hz).mpr (((h x hx y hy).mp hxy).trans ((h y hy z hz).mp hyz))
  values_only x hx y hy x' hx' y' hy' hxx hyy := by
    rw [Bool.eq_iff_iff, h x hx y hy, h x' hx' y' hy', hxx, hyy]

/-- The comparison is by value on a set of objects exactly if no two of them hold the same
address and port. -/
theorem equality_by_value_iff (m : Memory) (S : Set Addr) : EqualityByValue m S ↔
    ∀ x ∈ S, ∀ y ∈ S, x ≠ y → ¬SameValue (m x) (m y) := by
  constructor
  · intro h x hx y hy hne hsame
    exact hne ((equal_iff m x y).mp ((h.by_value x hx y hy).mpr hsame))
  · intro h
    apply EqualityByValue.of_by_value
    intro x hx y hy
    rw [equal_iff]
    constructor
    · rintro rfl
      exact .refl _
    · intro hsame
      by_contra hne
      exact h x hx y hy hne hsame

theorem copy_differs : ¬EqualityByValue
    (copyConstruct (fun _ => .ofParts (.ofSegments 0 0 0 0 0 0 0 1) 80 0 0) 64 0) {0, 64} := by
  intro h
  have heq := h.copies 0 (by simp) 64 (by simp) rfl
  exact absurd ((equal_iff _ _ _).mp heq) (by decide)

end NetSocketAddrV6Equality
