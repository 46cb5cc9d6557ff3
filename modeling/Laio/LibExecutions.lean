import Mathlib.Data.List.Induction

/-! # Finite executions of a labelled transition relation

A run invariant is proved once from its step lemma. The exact form relates a property
of every state on the way to a guard that every step on the way meets. -/
namespace LibExecutions

variable {σ ε : Type*} {Step : σ → ε → σ → Prop}

inductive Execution (Step : σ → ε → σ → Prop) : σ → List ε → σ → Prop where
  | refl (s) : Execution Step s [] s
  | tail {s es u e v} : Execution Step s es u → Step u e v → Execution Step s (es ++ [e]) v

/-- Every state reached by the events, or by a first part of them, satisfies `P`. -/
def HoldsAlong (Step : σ → ε → σ → Prop) (P : σ → Prop) (s : σ) (es : List ε) : Prop :=
  ∀ es₁ t, es₁ <+: es → Execution Step s es₁ t → P t

/-- Every step that the events take meets the guard `G` in the state it is taken from. -/
def MeetsAlong (Step : σ → ε → σ → Prop) (G : σ → ε → Prop) (s : σ) (es : List ε) : Prop :=
  ∀ es₁ e t u, es₁ ++ [e] <+: es → Execution Step s es₁ t → Step t e u → G t e

theorem Execution.single {s t : σ} {e : ε} (h : Step s e t) : Execution Step s [e] t :=
  .tail (.refl s) h

theorem Execution.invariant {Inv : σ → Prop} (hstep : ∀ s e t, Inv s → Step s e t → Inv t)
    {s t : σ} {es : List ε} (h : Execution Step s es t) (hs : Inv s) : Inv t := by
  induction h with
  | refl => exact hs
  | tail _ hv ih => exact hstep _ _ _ ih hv

theorem execution_exists (htotal : ∀ s e, ∃ t, Step s e t) (s : σ) (es : List ε) :
    ∃ t, Execution Step s es t := by
  induction es using List.reverseRecOn with
  | nil => exact ⟨s, .refl s⟩
  | append_singleton es e ih =>
    obtain ⟨u, hu⟩ := ih
    obtain ⟨v, hv⟩ := htotal u e
    exact ⟨v, .tail hu hv⟩

section Exact

variable {P : σ → Prop} {G : σ → ε → Prop} {s : σ} {es : List ε} (Inv : σ → Prop)

theorem holdsAlong_of_meetsAlong (hinv : ∀ s e t, Inv s → Step s e t → Inv t)
    (hstep : ∀ s e t, Inv s → P s → Step s e t → G s e → P t)
    (hs : Inv s) (hp : P s) (hg : MeetsAlong Step G s es) : HoldsAlong Step P s es := by
  intro es₁ t hpre h
  induction h with
  | refl => exact hp
  | @tail es₁ u e v h hv ih =>
    have hu : P u := ih ((List.prefix_append es₁ [e]).trans hpre)
    exact hstep u e v (h.invariant hinv hs) hu hv (hg es₁ e u v hpre h hv)

/-- The property holds along the events exactly if every step meets the guard, where the
guard says of one step precisely that it keeps the property. -/
theorem holdsAlong_iff_meetsAlong (hinv : ∀ s e t, Inv s → Step s e t → Inv t)
    (hstep : ∀ s e t, Inv s → P s → Step s e t → (P t ↔ G s e))
    (hs : Inv s) (hp : P s) : HoldsAlong Step P s es ↔ MeetsAlong Step G s es := by
  constructor
  · intro h es₁ e t u hpre ht hu
    have hpt : P t := h es₁ t ((List.prefix_append es₁ [e]).trans hpre) ht
    have hpu : P u := h (es₁ ++ [e]) u hpre (.tail ht hu)
    exact (hstep t e u (ht.invariant hinv hs) hpt hu).mp hpu
  · exact holdsAlong_of_meetsAlong Inv hinv
      (fun s e t hs hp ht hg => (hstep s e t hs hp ht).mpr hg) hs hp

end Exact

end LibExecutions
