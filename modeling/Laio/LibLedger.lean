import Mathlib.Algebra.BigOperators.Group.Finset.Basic
import Mathlib.Tactic.Abel

/-! # A ledger of resources

Every resource that was ever handed out stands in exactly one account. The balance is a
field of the ledger, so a booking that loses or doubles a resource cannot be written. -/
namespace LibLedger

variable {α : Type*}

structure Ledger (α : Type*) where
  given : Multiset α
  held : Multiset α
  closed : Multiset α
  extracted : Multiset α
  lost : Multiset α
  balance : given = held + closed + extracted + lost
  distinct : given.Nodup

namespace Ledger

def empty : Ledger α := ⟨0, 0, 0, 0, 0, rfl, Multiset.nodup_zero⟩

def acquire (L : Ledger α) (s : Multiset α) (h : (s + L.given).Nodup) : Ledger α where
  given := s + L.given
  held := s + L.held
  closed := L.closed
  extracted := L.extracted
  lost := L.lost
  balance := by rw [L.balance]; abel
  distinct := h

/-- Books what leaves the holders: closed, extracted, or lost. -/
def settle (L : Ledger α) (c e l rest : Multiset α) (h : L.held = c + e + l + rest) :
    Ledger α where
  given := L.given
  held := rest
  closed := c + L.closed
  extracted := e + L.extracted
  lost := l + L.lost
  balance := by rw [L.balance, h]; abel
  distinct := L.distinct

variable (L : Ledger α)

/-- No account holds a resource twice, and no resource is in two accounts. -/
theorem separate : L.held.Nodup ∧ L.closed.Nodup ∧ Disjoint L.held L.closed ∧
    Disjoint L.closed L.extracted ∧ Disjoint (L.held + L.closed + L.extracted) L.lost := by
  have h := L.distinct
  rw [L.balance] at h
  obtain ⟨h3, _, hlost⟩ := Multiset.nodup_add.mp h
  obtain ⟨h2, _, hextracted⟩ := Multiset.nodup_add.mp h3
  obtain ⟨hheld, hclosed, hdisjoint⟩ := Multiset.nodup_add.mp h2
  exact ⟨hheld, hclosed, hdisjoint, (Multiset.disjoint_add_left.mp hextracted).2, hlost⟩

theorem settled_separate :
    (L.closed + L.extracted).Nodup ∧ Disjoint L.held (L.closed + L.extracted) := by
  have h := L.distinct
  rw [L.balance, add_assoc L.held] at h
  obtain ⟨hsettled, _, _⟩ := Multiset.nodup_add.mp h
  obtain ⟨_, hnodup, hdisjoint⟩ := Multiset.nodup_add.mp hsettled
  exact ⟨hnodup, hdisjoint⟩

theorem mem_given {a : α} :
    a ∈ L.given ↔ ((a ∈ L.held ∨ a ∈ L.closed) ∨ a ∈ L.extracted) ∨ a ∈ L.lost := by
  rw [L.balance]
  simp only [Multiset.mem_add]

theorem kept_iff : L.extracted = 0 ∧ L.lost = 0 ↔ ∀ a ∈ L.given, a ∈ L.held ∨ a ∈ L.closed := by
  constructor
  · rintro ⟨hextracted, hlost⟩ a ha
    have hmem := L.mem_given.mp ha
    rw [hextracted, hlost] at hmem
    simpa only [Multiset.notMem_zero, or_false] using hmem
  · intro h
    have hkept : ∀ a ∈ L.given, a ∈ L.held + L.closed := by
      intro a ha
      exact Multiset.mem_add.mpr (h a ha)
    have hnodup := L.distinct
    rw [L.balance, add_assoc] at hnodup
    have hdisjoint := (Multiset.nodup_add.mp hnodup).2.2
    have hnone : ∀ a, a ∉ L.extracted + L.lost := by
      intro a ha
      refine Multiset.disjoint_left.mp hdisjoint (hkept a ?_) ha
      rw [L.balance, add_assoc]
      exact Multiset.mem_add.mpr (Or.inr ha)
    constructor
    · exact Multiset.eq_zero_of_forall_notMem fun a ha => hnone a (Multiset.mem_add.mpr (Or.inl ha))
    · exact Multiset.eq_zero_of_forall_notMem fun a ha => hnone a (Multiset.mem_add.mpr (Or.inr ha))

end Ledger

end LibLedger
