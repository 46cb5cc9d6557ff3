import Mathlib.Data.List.Range

/-! # Counted loops with a body that may fail -/
namespace LibLoops

/-- `for (i = lo; i < hi; ++i)`, stopped by the first failure of the body. -/
def forLoop {σ : Type*} (lo hi : ℕ) (body : σ → ℕ → Option σ) (s : σ) : Option σ :=
  (List.range' lo (hi - lo)).foldlM body s

/-- The total-correctness rule: an invariant that every pass re-establishes without
failing holds, at the upper bound, of a result that exists. -/
theorem forLoop_rule {σ : Type*} {body : σ → ℕ → Option σ} (Inv : ℕ → σ → Prop) {lo hi : ℕ}
    (hle : lo ≤ hi) {s : σ} (hs : Inv lo s)
    (hbody : ∀ i s, lo ≤ i → i < hi → Inv i s → ∃ t, body s i = some t ∧ Inv (i + 1) t) :
    ∃ t, forLoop lo hi body s = some t ∧ Inv hi t := by
  obtain ⟨n, rfl⟩ := Nat.exists_eq_add_of_le hle
  unfold forLoop
  rw [Nat.add_sub_cancel_left]
  clear hle
  induction n with
  | zero => exact ⟨s, rfl, hs⟩
  | succ n ih =>
    obtain ⟨u, hu, hinv⟩ := ih (fun i s hlo hhi => hbody i s hlo (by omega))
    obtain ⟨t, ht, hinv'⟩ := hbody (lo + n) u (by omega) (by omega) hinv
    refine ⟨t, ?_, hinv'⟩
    rw [List.range'_concat, List.foldlM_append, hu]
    simpa using ht

end LibLoops
