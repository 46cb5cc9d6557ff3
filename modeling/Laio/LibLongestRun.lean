import Mathlib.Data.List.Basic

/-! # The leftmost longest run of a list

A run is a block of consecutive elements that satisfy a predicate. The rules say how the
best run and the trailing run change when one element is appended, which is what a scan
from left to right has to maintain. -/
namespace LibLongestRun

variable {α : Type*} {p : α → Prop} {l : List α} {x : α} {s n len start t : ℕ}

structure IsRun (p : α → Prop) (l : List α) (start len : ℕ) : Prop where
  within : start + len ≤ l.length
  all : ∀ i, start ≤ i → i < start + len → ∃ x, l[i]? = some x ∧ p x

structure IsLeftmostLongest (p : α → Prop) (l : List α) (start len : ℕ) : Prop where
  run : IsRun p l start len
  longest : ∀ s n, IsRun p l s n → n ≤ len
  leftmost : ∀ s, IsRun p l s len → start ≤ s

/-- The longest run that ends where the list ends. -/
structure IsTrailing (p : α → Prop) (l : List α) (len : ℕ) : Prop where
  run : IsRun p l (l.length - len) len
  within : len ≤ l.length
  longest : ∀ s n, IsRun p l s n → s + n = l.length → n ≤ len

theorem IsRun.append (h : IsRun p l s n) (m : List α) : IsRun p (l ++ m) s n where
  within := by
    rw [List.length_append]
    exact Nat.le_add_right_of_le h.within
  all i hlo hhi := by
    obtain ⟨x, hx, hp⟩ := h.all i hlo hhi
    have hlt : i < l.length := Nat.lt_of_lt_of_le hhi h.within
    exact ⟨x, by rwa [List.getElem?_append_left hlt], hp⟩

theorem IsRun.of_append (h : IsRun p (l ++ [x]) s n) (hle : s + n ≤ l.length) :
    IsRun p l s n where
  within := hle
  all i hlo hhi := by
    obtain ⟨y, hy, hp⟩ := h.all i hlo hhi
    rw [List.getElem?_append_left (by omega)] at hy
    exact ⟨y, hy, hp⟩

theorem IsRun.snoc_inv (h : IsRun p (l ++ [x]) s (n + 1)) (hend : s + (n + 1) = l.length + 1) :
    IsRun p l s n ∧ p x := by
  constructor
  · refine ⟨by omega, fun i hlo hhi => ?_⟩
    obtain ⟨y, hy, hp⟩ := h.all i hlo (by omega)
    rw [List.getElem?_append_left (by omega)] at hy
    exact ⟨y, hy, hp⟩
  · obtain ⟨y, hy, hp⟩ := h.all l.length (by omega) (by omega)
    obtain rfl : x = y := by simpa using hy
    exact hp

theorem IsRun.snoc (h : IsRun p l s n) (hend : s + n = l.length) (hx : p x) :
    IsRun p (l ++ [x]) s (n + 1) where
  within := by simp; omega
  all i hlo hhi := by
    by_cases hi : i < l.length
    · obtain ⟨y, hy, hp⟩ := h.all i hlo (by omega)
      exact ⟨y, by rwa [List.getElem?_append_left hi], hp⟩
    · obtain rfl : i = l.length := by omega
      exact ⟨x, by simp, hx⟩

/-- Every run of the extended list is a run of the old one or reaches the new end. -/
theorem IsRun.snoc_cases (h : IsRun p (l ++ [x]) s n) :
    IsRun p l s n ∨ s + n = l.length + 1 := by
  have hw := h.within
  rw [List.length_append, List.length_singleton] at hw
  by_cases hle : s + n ≤ l.length
  · exact Or.inl (h.of_append hle)
  · exact Or.inr (by omega)

theorem IsRun.elided {a : α} (h : IsRun (· = a) l s n) :
    l.take s ++ List.replicate n a ++ l.drop (s + n) = l := by
  have hmid : (l.drop s).take n = List.replicate n a := by
    have hw := h.within
    rw [List.eq_replicate_iff]
    refine ⟨by simp; omega, fun b hb => ?_⟩
    obtain ⟨i, hi⟩ := List.mem_iff_getElem?.mp hb
    obtain ⟨hlt, rfl⟩ := List.getElem?_eq_some_iff.mp hi
    rw [List.length_take] at hlt
    obtain ⟨x, hx, rfl⟩ := h.all (s + i) (by omega) (by omega)
    rw [List.getElem?_take_of_lt (by omega), List.getElem?_drop, hx] at hi
    exact (Option.some.inj hi).symm
  rw [← hmid, List.append_assoc, ← List.drop_drop, List.take_append_drop, List.take_append_drop]

theorem isLeftmostLongest_nil : IsLeftmostLongest p ([] : List α) 0 0 where
  run := ⟨by simp, by omega⟩
  longest s n h := by have := h.within; simp at this; omega
  leftmost s _ := by omega

theorem isTrailing_nil : IsTrailing p ([] : List α) 0 where
  run := ⟨by simp, by omega⟩
  within := by simp
  longest s n h _ := by have := h.within; simp at this; omega

theorem IsTrailing.snoc_pos (h : IsTrailing p l t) (hx : p x) :
    IsTrailing p (l ++ [x]) (t + 1) where
  run := by
    have hlen : (l ++ [x]).length - (t + 1) = l.length - t := by simp
    rw [hlen]
    exact h.run.snoc (by have := h.within; omega) hx
  within := by have := h.within; simp; omega
  longest s n hr hend := by
    rw [List.length_append, List.length_singleton] at hend
    cases n with
    | zero => omega
    | succ n =>
      have := h.longest s n (hr.snoc_inv hend).1 (by omega)
      omega

theorem isTrailing_snoc_neg (l : List α) (hx : ¬ p x) : IsTrailing p (l ++ [x]) 0 where
  run := ⟨by simp, by omega⟩
  within := by simp
  longest s n hr hend := by
    rw [List.length_append, List.length_singleton] at hend
    cases n with
    | zero => omega
    | succ n => exact (hx (hr.snoc_inv hend).2).elim

theorem IsLeftmostLongest.snoc_neg (h : IsLeftmostLongest p l start len) (hx : ¬ p x) :
    IsLeftmostLongest p (l ++ [x]) start len where
  run := h.run.append [x]
  longest s n hr := by
    rcases hr.snoc_cases with hold | hend
    · exact h.longest s n hold
    · cases n with
      | zero => omega
      | succ n => exact (hx (hr.snoc_inv hend).2).elim
  leftmost s hr := by
    rcases hr.snoc_cases with hold | hend
    · exact h.leftmost s hold
    · have := h.run.within
      omega

/-- A trailing run that has not outgrown the best one leaves it in place: ties go to the
left. -/
theorem IsLeftmostLongest.snoc_keep (h : IsLeftmostLongest p l start len)
    (ht : IsTrailing p (l ++ [x]) t) (hle : t ≤ len) :
    IsLeftmostLongest p (l ++ [x]) start len where
  run := h.run.append [x]
  longest s n hr := by
    rcases hr.snoc_cases with hold | hend
    · exact h.longest s n hold
    · have := ht.longest s n hr (by simpa using hend)
      omega
  leftmost s hr := by
    rcases hr.snoc_cases with hold | hend
    · exact h.leftmost s hold
    · have := h.run.within
      omega

theorem IsLeftmostLongest.snoc_grow (h : IsLeftmostLongest p l start len)
    (ht : IsTrailing p (l ++ [x]) t) (hlt : len < t) :
    IsLeftmostLongest p (l ++ [x]) ((l ++ [x]).length - t) t where
  run := ht.run
  longest s n hr := by
    rcases hr.snoc_cases with hold | hend
    · have := h.longest s n hold
      omega
    · exact ht.longest s n hr (by simpa using hend)
  leftmost s hr := by
    rcases hr.snoc_cases with hold | hend
    · have := h.longest s t hold
      omega
    · simp; omega

end LibLongestRun
