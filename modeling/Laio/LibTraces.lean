import Mathlib.Data.List.Basic

/-! # Traces that end resources

An entry of a trace names a resource, and some entries end the resource they name. In a safe
trace nothing names a resource that an earlier entry ended. -/
namespace LibTraces

variable {ε α : Type*}

structure Alphabet (ε α : Type*) where
  names : ε → Option α
  ends : ε → Prop

namespace Alphabet

variable (A : Alphabet ε α)

/-- Some entry of the trace ends the resource. -/
def Ended (t : List ε) (a : α) : Prop := ∃ e ∈ t, A.ends e ∧ A.names e = some a

def Compatible (earlier later : ε) : Prop :=
  ∀ a, A.ends earlier → A.names earlier = some a → A.names later ≠ some a

def Safe (t : List ε) : Prop := t.Pairwise A.Compatible

variable {A} {t u : List ε}

theorem safe_nil : A.Safe [] := List.Pairwise.nil

/-- A safe trace goes on safely with whatever names nothing that it ended. -/
theorem Safe.append (ht : A.Safe t) (hu : A.Safe u)
    (h : ∀ e ∈ u, ∀ a, A.names e = some a → ¬A.Ended t a) : A.Safe (t ++ u) := by
  refine List.pairwise_append.mpr ⟨ht, hu, ?_⟩
  intro earlier he later hl a hends hnames hlater
  exact h later hl a hlater ⟨earlier, he, hends, hnames⟩

theorem safe_of_not_ends (h : ∀ e ∈ t, ¬A.ends e) : A.Safe t := by
  apply List.pairwise_of_forall_mem_list
  intro earlier he later _ a hends
  exact (h earlier he hends).elim

theorem safe_of_nodup {f : ε → α} (hf : ∀ e ∈ t, ∀ a, A.names e = some a → a = f e)
    (h : (t.map f).Nodup) : A.Safe t := by
  refine List.Pairwise.imp_of_mem ?_ (List.pairwise_map.mp h)
  intro earlier later he hl hne a _ hearlier hlater
  exact hne ((hf earlier he a hearlier).symm.trans (hf later hl a hlater))

theorem Safe.not_ended {e : ε} {a : α} (h : A.Safe (t ++ e :: u)) (he : A.names e = some a) :
    ¬A.Ended t a := by
  rintro ⟨earlier, hmem, hends, hnames⟩
  exact (List.pairwise_append.mp h).2.2 earlier hmem e List.mem_cons_self a hends hnames he

end Alphabet

end LibTraces
