import Mathlib.Order.Defs.LinearOrder
import Mathlib.Data.Set.Basic
import Mathlib.Data.Sum.Basic

/-! # Comparisons as keys of sorted containers

A comparison and an equality that both read off one valuation in a linear order satisfy what
a sorted container requires of its keys. -/
namespace LibOrders

def ExactlyOne (p q r : Prop) : Prop := (p ∧ ¬q ∧ ¬r) ∨ (¬p ∧ q ∧ ¬r) ∨ (¬p ∧ ¬q ∧ r)

variable {α β : Type*}

def Incomparable (lt : α → α → Prop) (a b : α) : Prop := ¬lt a b ∧ ¬lt b a

/-- The requirements on the keys in `S`: a strict weak order that agrees with equality. -/
structure KeyOrder (S : Set α) (lt eq : α → α → Prop) : Prop where
  exactlyOne : ∀ a ∈ S, ∀ b ∈ S, ExactlyOne (lt a b) (eq a b) (lt b a)
  trans : ∀ a ∈ S, ∀ b ∈ S, ∀ c ∈ S, lt a b → lt b c → lt a c
  incomparable_trans : ∀ a ∈ S, ∀ b ∈ S, ∀ c ∈ S,
    Incomparable lt a b → Incomparable lt b c → Incomparable lt a c

theorem KeyOrder.preimage {S : Set β} {lt eq : β → β → Prop} {lt' eq' : α → α → Prop}
    {f : α → β} (hlt : ∀ a b, lt (f a) (f b) ↔ lt' a b) (heq : ∀ a b, eq (f a) (f b) ↔ eq' a b)
    (h : KeyOrder S lt eq) : KeyOrder (Set.preimage f S) lt' eq' := by
  have hinc : ∀ a b, Incomparable lt (f a) (f b) ↔ Incomparable lt' a b := by
    intro a b
    rw [Incomparable, Incomparable, hlt, hlt]
  refine ⟨fun a ha b hb => ?_, fun a ha b hb c hc hab hbc => ?_,
    fun a ha b hb c hc hab hbc => ?_⟩
  · rw [← hlt, ← hlt, ← heq]
    exact h.exactlyOne _ ha _ hb
  · rw [← hlt] at hab hbc ⊢
    exact h.trans _ ha _ hb _ hc hab hbc
  · rw [← hinc] at hab hbc ⊢
    exact h.incomparable_trans _ ha _ hb _ hc hab hbc

theorem keyOrder_iff_comparable {S : Set α} {lt : α → α → Prop} (hirrefl : ∀ a, ¬lt a a)
    (htrans : ∀ a b c, lt a b → lt b c → lt a c) :
    KeyOrder S lt (· = ·) ↔ ∀ a ∈ S, ∀ b ∈ S, a ≠ b → lt a b ∨ lt b a := by
  constructor
  · intro h a ha b hb hne
    rcases h.exactlyOne a ha b hb with ⟨hlt, _⟩ | ⟨_, heq, _⟩ | ⟨_, _, hlt⟩
    · exact Or.inl hlt
    · exact (hne heq).elim
    · exact Or.inr hlt
  · intro h
    have heq : ∀ a ∈ S, ∀ b ∈ S, Incomparable lt a b → a = b := by
      intro a ha b hb hinc
      by_contra hne
      exact (h a ha b hb hne).elim hinc.1 hinc.2
    refine ⟨?_, fun a _ b _ c _ => htrans a b c, ?_⟩
    · intro a ha b hb
      by_cases hab : a = b
      · subst hab
        exact Or.inr (Or.inl ⟨hirrefl a, rfl, hirrefl a⟩)
      · rcases h a ha b hb hab with hlt | hlt
        · exact Or.inl ⟨hlt, hab, fun hgt => hirrefl a (htrans a b a hlt hgt)⟩
        · exact Or.inr (Or.inr ⟨fun hgt => hirrefl a (htrans a b a hgt hlt), hab, hlt⟩)
    · intro a ha b hb c hc hab hbc
      obtain rfl := heq a ha b hb hab
      exact hbc

section Sum

variable {ltA eqA : α → α → Prop} {ltB eqB : β → β → Prop}

/-- Keys of two kinds, all of the first kind below all of the second: each kind by itself
has to meet the requirements, and that is enough. -/
theorem keyOrder_sum_iff {S : Set (α ⊕ β)} :
    KeyOrder S (Sum.Lex ltA ltB) (Sum.LiftRel eqA eqB) ↔
      KeyOrder (Set.preimage Sum.inl S) ltA eqA ∧ KeyOrder (Set.preimage Sum.inr S) ltB eqB := by
  constructor
  · intro h
    exact ⟨h.preimage (fun _ _ => Sum.lex_inl_inl) fun _ _ => Sum.liftRel_inl_inl,
      h.preimage (fun _ _ => Sum.lex_inr_inr) fun _ _ => Sum.liftRel_inr_inr⟩
  · rintro ⟨hA, hB⟩
    refine ⟨?_, ?_, ?_⟩
    · rintro (a | a) ha (b | b) hb
      · simpa using hA.exactlyOne a ha b hb
      · simp [ExactlyOne]
      · simp [ExactlyOne]
      · simpa using hB.exactlyOne a ha b hb
    · rintro (a | a) ha (b | b) hb (c | c) hc hab hbc
      · simpa using hA.trans a ha b hb c hc (by simpa using hab) (by simpa using hbc)
      · simp
      · simp at hbc
      · simp
      · simp at hab
      · simp at hab
      · simp at hbc
      · simpa using hB.trans a ha b hb c hc (by simpa using hab) (by simpa using hbc)
    · rintro (a | a) ha (b | b) hb (c | c) hc hab hbc
      · simpa [Incomparable] using hA.incomparable_trans a ha b hb c hc
          (by simpa [Incomparable] using hab) (by simpa [Incomparable] using hbc)
      · simp [Incomparable] at hbc
      · simp [Incomparable] at hab
      · simp [Incomparable] at hab
      · simp [Incomparable] at hab
      · simp [Incomparable] at hab
      · simp [Incomparable] at hbc
      · simpa [Incomparable] using hB.incomparable_trans a ha b hb c hc
          (by simpa [Incomparable] using hab) (by simpa [Incomparable] using hbc)

end Sum

variable [LinearOrder β]

structure ReadsOff (S : Set α) (lt eq : α → α → Prop) (value : α → β) : Prop where
  lt_iff : ∀ a ∈ S, ∀ b ∈ S, lt a b ↔ value a < value b
  eq_iff : ∀ a ∈ S, ∀ b ∈ S, eq a b ↔ value a = value b

theorem exactlyOne_linear (x y : β) : ExactlyOne (x < y) (x = y) (y < x) := by
  rcases lt_trichotomy x y with h | h | h
  · exact Or.inl ⟨h, ne_of_lt h, lt_asymm h⟩
  · exact Or.inr (Or.inl ⟨not_lt_of_ge h.ge, h, not_lt_of_ge h.le⟩)
  · exact Or.inr (Or.inr ⟨lt_asymm h, ne_of_gt h, h⟩)

theorem incomparable_linear (x y : β) : Incomparable (· < ·) x y ↔ x = y := by
  simp only [Incomparable, not_lt]
  exact ⟨fun h => le_antisymm h.2 h.1, fun h => ⟨h.ge, h.le⟩⟩

theorem ReadsOff.keyOrder {S : Set α} {lt eq : α → α → Prop} {value : α → β}
    (h : ReadsOff S lt eq value) : KeyOrder S lt eq := by
  have hinc : ∀ a ∈ S, ∀ b ∈ S, Incomparable lt a b ↔ value a = value b := by
    intro a ha b hb
    rw [← incomparable_linear, Incomparable, h.lt_iff a ha b hb, h.lt_iff b hb a ha]
    rfl
  constructor
  · intro a ha b hb
    rw [h.lt_iff a ha b hb, h.eq_iff a ha b hb, h.lt_iff b hb a ha]
    exact exactlyOne_linear _ _
  · intro a ha b hb c hc hab hbc
    rw [h.lt_iff _ ‹_› _ ‹_›] at hab hbc ⊢
    exact lt_trans hab hbc
  · intro a ha b hb c hc hab hbc
    rw [hinc _ ‹_› _ ‹_›] at hab hbc ⊢
    exact hab.trans hbc

end LibOrders
