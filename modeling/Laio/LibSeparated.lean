import Mathlib.Algebra.BigOperators.Group.List.Basic
import Mathlib.Algebra.GroupWithZero.Nat
import Mathlib.Data.List.Basic

/-! # Words joined by a separator

Splitting and joining are the standard library's. What is added here is a text that is cut
once at a doubled separator, which is how an elided part of a sequence is marked. -/
namespace LibSeparated

variable {α β : Type*}

theorem join_cons (sep : α) (w : List α) (ws : List (List α)) :
    [sep].intercalate (w :: ws) = w ++ ws.flatMap (sep :: ·) := by
  induction ws generalizing w with
  | nil => simp
  | cons v ws ih => rw [List.intercalate_cons_cons, ih v]; simp

theorem join_prefix_append (sep : α) (ws vs : List (List α)) :
    [sep].intercalate ws <+: [sep].intercalate (ws ++ vs) := by
  cases ws with
  | nil => exact List.nil_prefix
  | cons w ws =>
    rw [List.cons_append, join_cons, join_cons, List.flatMap_append, ← List.append_assoc]
    exact List.prefix_append _ _

theorem length_join (sep : α) (ws : List (List α)) :
    ([sep].intercalate ws).length = (ws.map List.length).sum + (ws.length - 1) := by
  cases ws with
  | nil => rfl
  | cons w ws =>
    rw [join_cons]
    induction ws with
    | nil => simp
    | cons v ws ih =>
      simp only [List.flatMap_cons, List.length_append, List.length_cons, List.map_cons,
        List.sum_cons] at ih ⊢
      omega

theorem mapM_print {word? : List α → Option β} {print : β → List α} {bs : List β}
    (hread : ∀ b ∈ bs, word? (print b) = some b) : (bs.map print).mapM word? = some bs := by
  induction bs with
  | nil => rfl
  | cons b bs ih =>
    rw [List.map_cons, List.mapM_cons, hread b (by simp),
      ih (fun c hc => hread c (List.mem_cons_of_mem _ hc))]
    rfl

def Doubled (sep : α) (t : List α) : Prop := ∃ l r, t = l ++ sep :: sep :: r

theorem Doubled.append {sep : α} {t : List α} (h : Doubled sep t) (u : List α) :
    Doubled sep (t ++ u) := by
  obtain ⟨l, r, rfl⟩ := h
  exact ⟨l, r ++ u, by simp⟩

/-- A doubled separator is the only one if each side together with its neighbouring
separator contains none. -/
theorem doubled_unique {sep : α} {l r l' r' : List α} (hl : ¬Doubled sep (l ++ [sep]))
    (hr : ¬Doubled sep (sep :: r)) (h : l ++ sep :: sep :: r = l' ++ sep :: sep :: r') :
    l' = l ∧ r' = r := by
  rcases List.append_eq_append_iff.mp h with ⟨m, rfl, hm⟩ | ⟨m, rfl, hm⟩
  · cases m with
    | nil => simpa using hm.symm
    | cons y m =>
      rw [List.cons_append, List.cons.injEq] at hm
      exact (hr ⟨m, r', hm.2⟩).elim
  · match m, hm with
    | [], hm => simpa using hm
    | [y], hm =>
      obtain ⟨rfl, _⟩ : sep = y ∧ _ := by simpa using hm
      exact (hl ⟨l', [], by simp⟩).elim
    | y :: z :: m, hm =>
      obtain ⟨rfl, rfl, _⟩ : sep = y ∧ sep = z ∧ _ := by simpa using hm
      exact (hl ⟨l', m ++ [sep], by simp⟩).elim

variable [DecidableEq α]

/-- The text before and after the first two separators that stand next to each other. -/
def cutDouble (sep : α) : List α → Option (List α × List α)
  | x :: y :: l =>
    if x = sep ∧ y = sep then some ([], l)
    else (cutDouble sep (y :: l)).map fun p => (x :: p.1, p.2)
  | _ => none

/-- Reads words that stand between single separators; the empty text has no words. -/
def readWords (word? : List α → Option β) (sep : α) (t : List α) : Option (List β) :=
  if t = [] then some [] else (t.splitOn sep).mapM word?

variable {sep x : α} {w l : List α} {ws : List (List α)}

@[simp] theorem cutDouble_nil : cutDouble sep [] = none := rfl

@[simp] theorem cutDouble_sep_sep : cutDouble sep (sep :: sep :: l) = some ([], l) := by
  simp [cutDouble]

theorem cutDouble_cons_of_ne (h : x ≠ sep) :
    cutDouble sep (x :: l) = (cutDouble sep l).map fun p => (x :: p.1, p.2) := by
  cases l <;> simp [cutDouble, h]

theorem cutDouble_sep_cons_of_ne (h : x ≠ sep) :
    cutDouble sep (sep :: x :: l) =
      (cutDouble sep (x :: l)).map fun p => (sep :: p.1, p.2) := by
  simp [cutDouble, h]

theorem cutDouble_word_append (h : sep ∉ w) :
    cutDouble sep (w ++ l) = (cutDouble sep l).map fun p => (w ++ p.1, p.2) := by
  induction w with
  | nil => simp
  | cons x w ih =>
    rw [List.mem_cons, not_or] at h
    rw [List.cons_append, cutDouble_cons_of_ne (Ne.symm h.1), ih h.2]
    simp [Function.comp_def]

/-- A join of nonempty words never contains a doubled separator, nor does it end in one:
the cut is found in what follows. -/
theorem cutDouble_join_append (hws : ∀ w ∈ ws, w ≠ [] ∧ sep ∉ w) :
    cutDouble sep ([sep].intercalate ws ++ l) =
      (cutDouble sep l).map fun p => ([sep].intercalate ws ++ p.1, p.2) := by
  induction ws with
  | nil => simp
  | cons w ws ih =>
    have hw := hws w (by simp)
    cases ws with
    | nil => simpa using cutDouble_word_append hw.2
    | cons v ws =>
      have ih := ih (fun u hu => hws u (List.mem_cons_of_mem _ hu))
      obtain ⟨hv, hvs⟩ := hws v (by simp)
      obtain ⟨x, v', rfl⟩ := List.exists_cons_of_ne_nil hv
      have hx : x ≠ sep := fun h => hvs (by simp [h])
      rw [join_cons, List.cons_append] at ih
      rw [List.intercalate_cons_cons, join_cons, List.append_assoc, List.append_assoc,
        cutDouble_word_append hw.2, List.singleton_append, List.cons_append, List.cons_append,
        cutDouble_sep_cons_of_ne hx, ← List.cons_append, ih]
      simp [Function.comp_def]

theorem not_doubled_of_cutDouble {t : List α} (h : cutDouble sep t = none) : ¬Doubled sep t := by
  rintro ⟨u, r, rfl⟩
  induction u with
  | nil => simp at h
  | cons y u ih =>
    apply ih
    obtain ⟨z, v, hz⟩ : ∃ z v, u ++ sep :: sep :: r = z :: v :=
      List.exists_cons_of_ne_nil (by simp)
    rw [List.cons_append, hz, cutDouble] at h
    split at h
    · cases h
    · rw [hz]
      exact Option.map_eq_none_iff.mp h

theorem not_doubled_join_sep (hws : ∀ w ∈ ws, w ≠ [] ∧ sep ∉ w) :
    ¬Doubled sep ([sep].intercalate ws ++ [sep]) := by
  apply not_doubled_of_cutDouble
  rw [cutDouble_join_append hws]
  rfl

theorem not_doubled_sep_join (hws : ∀ w ∈ ws, w ≠ [] ∧ sep ∉ w) :
    ¬Doubled sep (sep :: [sep].intercalate ws) := by
  apply not_doubled_of_cutDouble
  have hcut := cutDouble_join_append (l := []) hws
  rw [List.append_nil, cutDouble_nil, Option.map_none] at hcut
  cases ws with
  | nil => rfl
  | cons w ws =>
    obtain ⟨hne, hsep⟩ := hws w (by simp)
    obtain ⟨x, w, rfl⟩ := List.exists_cons_of_ne_nil hne
    have hx : x ≠ sep := fun h => hsep (by simp [h])
    rw [join_cons, List.cons_append] at hcut ⊢
    rw [cutDouble_sep_cons_of_ne hx, hcut, Option.map_none]

theorem readWords_join {word? : List α → Option β} {print : β → List α} {bs : List β}
    (hread : ∀ b ∈ bs, word? (print b) = some b)
    (hword : ∀ b ∈ bs, print b ≠ [] ∧ sep ∉ print b) :
    readWords word? sep ([sep].intercalate (bs.map print)) = some bs := by
  cases bs with
  | nil => simp [readWords]
  | cons b bs =>
    have hne : [sep].intercalate ((b :: bs).map print) ≠ [] := by
      simp [List.map_cons, join_cons, (hword b (by simp)).1]
    have hsep : ∀ w ∈ (b :: bs).map print, sep ∉ w := by
      intro w hw
      obtain ⟨c, hc, rfl⟩ := List.mem_map.mp hw
      exact (hword c hc).2
    rw [readWords, if_neg hne, List.splitOn_intercalate _ hsep (by simp), mapM_print hread]

theorem eq_of_cutDouble {t r : List α} (h : cutDouble sep t = some (l, r)) :
    t = l ++ sep :: sep :: r := by
  induction t generalizing l with
  | nil => cases h
  | cons x t ih =>
    cases t with
    | nil => cases h
    | cons y t =>
      rw [cutDouble] at h
      split at h
      · next hxy =>
        obtain ⟨rfl, rfl⟩ := hxy
        cases h
        rfl
      · obtain ⟨⟨l', r'⟩, hcut, hp⟩ := Option.map_eq_some_iff.mp h
        cases hp
        rw [ih hcut, List.cons_append]

theorem length_join_le_of_readWords {word? : List α → Option β} {print : β → List α}
    (hword : ∀ w b, word? w = some b → (print b).length ≤ w.length) {t : List α} {bs : List β}
    (h : readWords word? sep t = some bs) :
    ([sep].intercalate (bs.map print)).length ≤ t.length := by
  have hsum : ∀ (ws : List (List α)) (bs : List β), ws.mapM word? = some bs →
      bs.length = ws.length ∧ ((bs.map print).map List.length).sum ≤ (ws.map List.length).sum := by
    intro ws
    induction ws with
    | nil =>
      rintro bs ⟨⟩
      exact ⟨rfl, Nat.le_refl _⟩
    | cons w ws ih =>
      intro bs h
      simp only [List.mapM_cons, Option.bind_eq_bind, Option.bind_eq_some_iff, Option.pure_def,
        Option.some.injEq] at h
      obtain ⟨b, hb, bs', hbs, rfl⟩ := h
      obtain ⟨hlen, hle⟩ := ih bs' hbs
      have hfirst := hword w b hb
      simp only [List.length_cons, List.map_cons, List.sum_cons]
      omega
  unfold readWords at h
  split at h
  · cases h
    exact Nat.zero_le _
  · obtain ⟨hlen, hle⟩ := hsum _ _ h
    have ht := length_join sep (t.splitOn sep)
    rw [List.intercalate_splitOn] at ht
    rw [length_join, ht, List.length_map, hlen]
    omega

end LibSeparated
