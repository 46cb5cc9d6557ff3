import Mathlib.Logic.Function.Basic

/-! # Objects with value semantics

Objects are constructed, changed by member functions, copied and moved. A map of their
representations that respects the member functions is respected by every program. -/
namespace LibObjects

variable {ι κ ρ α : Type*} [DecidableEq ι]

/-- What the member functions make of an object, and what a move leaves of its source. -/
structure ValueClass (κ ρ : Type*) where
  call : ρ → κ → ρ
  moved : ρ → ρ

inductive Event (ι κ ρ : Type*) where
  | construct (x : ι) (value : ρ)
  | call (x : ι) (c : κ)
  | copy (x source : ι)
  | move (x source : ι)

namespace ValueClass

variable (C : ValueClass κ ρ)

def next (objects : ι → ρ) : Event ι κ ρ → ι → ρ
  | .construct x value => Function.update objects x value
  | .call x c => Function.update objects x (C.call (objects x) c)
  | .copy x source => Function.update objects x (objects source)
  | .move x source =>
    Function.update (Function.update objects source (C.moved (objects source))) x (objects source)

def run (objects : ι → ρ) (es : List (Event ι κ ρ)) : ι → ρ := es.foldl C.next objects

end ValueClass

def Event.map (f : ρ → α) : Event ι κ ρ → Event ι κ α
  | .construct x value => .construct x (f value)
  | .call x c => .call x c
  | .copy x source => .copy x source
  | .move x source => .move x source

/-- The map commutes with every member function and with what a move leaves. -/
structure Represents (C : ValueClass κ ρ) (A : ValueClass κ α) (f : ρ → α) : Prop where
  call : ∀ r c, f (C.call r c) = A.call (f r) c
  moved : ∀ r, f (C.moved r) = A.moved (f r)

variable {C : ValueClass κ ρ} {A : ValueClass κ α} {f : ρ → α}

theorem Represents.next (h : Represents C A f) (objects : ι → ρ) (e : Event ι κ ρ) :
    f ∘ C.next objects e = A.next (f ∘ objects) (e.map f) := by
  cases e with
  | construct x value => exact Function.comp_update f objects x value
  | call x c =>
    rw [ValueClass.next, Function.comp_update, h.call]
    rfl
  | copy x source => exact Function.comp_update f objects x (objects source)
  | move x source =>
    rw [ValueClass.next, Function.comp_update, Function.comp_update, h.moved]
    rfl

theorem Represents.run (h : Represents C A f) (objects : ι → ρ) (es : List (Event ι κ ρ)) :
    f ∘ C.run objects es = A.run (f ∘ objects) (es.map (Event.map f)) := by
  induction es generalizing objects with
  | nil => rfl
  | cons e es ih =>
    rw [ValueClass.run, List.foldl_cons, List.map_cons]
    change f ∘ C.run (C.next objects e) es = A.run (A.next (f ∘ objects) (e.map f)) _
    rw [← h.next, ih]

structure Invariant (C : ValueClass κ ρ) (P : ρ → Prop) : Prop where
  call : ∀ r c, P r → P (C.call r c)
  moved : ∀ r, P r → P (C.moved r)

/-- The values that a program constructs its objects with. -/
def Constructs (P : ρ → Prop) (es : List (Event ι κ ρ)) : Prop :=
  ∀ x value, .construct x value ∈ es → P value

variable {P : ρ → Prop}

theorem forall_update {objects : ι → ρ} (h : ∀ y, P (objects y)) (x : ι) {value : ρ}
    (hv : P value) (y : ι) : P (Function.update objects x value y) := by
  by_cases hy : y = x
  · rw [hy, Function.update_self]
    exact hv
  · rw [Function.update_of_ne hy]
    exact h y

theorem Invariant.next (h : Invariant C P) {objects : ι → ρ} (ho : ∀ y, P (objects y))
    {e : Event ι κ ρ} (he : ∀ x value, e = .construct x value → P value) (y : ι) :
    P (C.next objects e y) := by
  cases e with
  | construct x value => exact forall_update ho x (he x value rfl) y
  | call x c => exact forall_update ho x (h.call _ c (ho x)) y
  | copy x source => exact forall_update ho x (ho source) y
  | move x source =>
    exact forall_update (forall_update ho source (h.moved _ (ho source))) x (ho source) y

theorem Invariant.run (h : Invariant C P) {objects : ι → ρ} (ho : ∀ y, P (objects y))
    {es : List (Event ι κ ρ)} (hes : Constructs P es) (y : ι) : P (C.run objects es y) := by
  induction es generalizing objects with
  | nil => exact ho y
  | cons e es ih =>
    rw [ValueClass.run, List.foldl_cons]
    apply ih
    · apply h.next ho
      rintro x value rfl
      exact hes x value List.mem_cons_self
    · intro x value hmem
      exact hes x value (List.mem_cons_of_mem _ hmem)

end LibObjects
