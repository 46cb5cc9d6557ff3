import Laio.NetIpv6Text

/-! # The canonical text of an IPv6 address

Outside the dotted branch the text is in the one form that the recommendation for IPv6
texts leaves. -/
namespace NetIpv6Canonical

open LibLongestRun LibPositional LibSeparated NetIpv6Addr NetIpv6Text

def lowerHexDigits : Text :=
  ['0', '1', '2', '3', '4', '5', '6', '7', '8', '9', 'a', 'b', 'c', 'd', 'e', 'f']

/-- The canonical notation of the segments: lower-case digits, no superfluous leading zero,
and at most one double colon, which stands for the leftmost longest run of zero segments,
and does so exactly if that run is longer than one. Everything else is written in order. -/
structure Canonical (segments : List UInt16) (t : Text) : Prop where
  lower : ∀ c ∈ t, c = ':' ∨ c ∈ lowerHexDigits
  no_leading_zero : ∀ g ∈ t.splitOn ':', g.head? = some '0' → g = ['0']
  once : ∀ l r l' r', t = l ++ ':' :: ':' :: r → t = l' ++ ':' :: ':' :: r' → l' = l
  elided_iff : Doubled ':' t ↔ ∃ start len, 2 ≤ len ∧ IsRun (· = 0) segments start len
  elided : ∀ l r, t = l ++ ':' :: ':' :: r → ∃ start len,
    IsLeftmostLongest (· = 0) segments start len ∧
    readWords readGroup ':' l = some (segments.take start) ∧
    readWords readGroup ':' r = some (segments.drop (start + len))
  written : ¬Doubled ':' t → readWords readGroup ':' t = some segments

variable {fmt : Fmt}

theorem mem_hex (hf : fmt.Documented) {c : Char} {w : UInt16} (hc : c ∈ fmt.hex w.toNat) :
    c ∈ lowerHexDigits := by
  rw [hf.hex_eq] at hc
  obtain ⟨d, hd, rfl⟩ := mem_toDigits (by decide) hc
  have hdigit : ∀ d < 16, Nat.digitChar d ∈ lowerHexDigits := by decide
  exact hdigit d hd

theorem mem_groups (hf : fmt.Documented) {c : Char} {segments : List UInt16}
    (hc : c ∈ groups fmt segments) : c = ':' ∨ c ∈ lowerHexDigits := by
  cases segments with
  | nil => simp [groups] at hc
  | cons w ws =>
    rw [groups, List.map_cons, join_cons, List.mem_append, List.mem_flatMap] at hc
    rcases hc with hc | ⟨g, hg, hc⟩
    · exact Or.inr (mem_hex hf hc)
    · obtain ⟨v, _, rfl⟩ := List.mem_map.mp hg
      rcases List.mem_cons.mp hc with hc | hc
      · exact Or.inl hc
      · exact Or.inr (mem_hex hf hc)

theorem mem_splitOn_groups (hf : fmt.Documented) {segments : List UInt16} {g : Text}
    (hg : g ∈ (groups fmt segments).splitOn ':') : g = [] ∨ ∃ w : UInt16, g = fmt.hex w.toNat := by
  cases segments with
  | nil =>
    rw [groups, List.map_nil, List.intercalate_nil, List.splitOn_nil, List.mem_singleton] at hg
    exact Or.inl hg
  | cons w ws =>
    have hsep : ∀ l ∈ (w :: ws).map fun w => fmt.hex w.toNat, ':' ∉ l := by
      intro l hl
      obtain ⟨v, _, rfl⟩ := List.mem_map.mp hl
      exact (hex_word hf v).2
    rw [groups, List.splitOn_intercalate _ hsep (by simp)] at hg
    obtain ⟨v, _, rfl⟩ := List.mem_map.mp hg
    exact Or.inr ⟨v, rfl⟩

theorem no_leading_zero_groups (hf : fmt.Documented) {segments : List UInt16} {g : Text}
    (hg : g ∈ (groups fmt segments).splitOn ':') (h0 : g.head? = some '0') : g = ['0'] := by
  rcases mem_splitOn_groups hf hg with rfl | ⟨w, rfl⟩
  · cases h0
  · rw [hf.hex_eq] at h0 ⊢
    rcases Nat.eq_zero_or_pos w.toNat with hw | hw
    · rw [hw]
      rfl
    · exact (head_toDigits_ne_zero (by decide) hw h0).elim

theorem groups_words (hf : fmt.Documented) (segments : List UInt16) :
    ∀ g ∈ segments.map fun w => fmt.hex w.toNat, g ≠ [] ∧ ':' ∉ g := by
  intro g hg
  obtain ⟨w, _, rfl⟩ := List.mem_map.mp hg
  exact hex_word hf w

theorem not_doubled_groups (hf : fmt.Documented) (segments : List UInt16) :
    ¬Doubled ':' (groups fmt segments) := by
  intro h
  exact not_doubled_join_sep (groups_words hf segments) (h.append [':'])

theorem elided_unique (hf : fmt.Documented) {xs ys : List UInt16} {l r : Text}
    (h : groups fmt xs ++ ':' :: ':' :: groups fmt ys = l ++ ':' :: ':' :: r) :
    l = groups fmt xs ∧ r = groups fmt ys :=
  doubled_unique (not_doubled_join_sep (groups_words hf xs))
    (not_doubled_sep_join (groups_words hf ys)) h

theorem canonical_elided (hf : fmt.Documented) {segments : List UInt16} {start len : ℕ}
    (hbest : IsLeftmostLongest (· = 0) segments start len) (hlong : 1 < len) :
    Canonical segments (groups fmt (segments.take start) ++
      ':' :: ':' :: groups fmt (segments.drop (start + len))) where
  lower c hc := by
    rcases List.mem_append.mp hc with hc | hc
    · exact mem_groups hf hc
    · simp only [List.mem_cons] at hc
      rcases hc with hc | hc | hc
      · exact Or.inl hc
      · exact Or.inl hc
      · exact mem_groups hf hc
  no_leading_zero g hg h0 := by
    rw [List.splitOn_append_cons_self, ← List.nil_append (':' :: groups fmt _),
      List.splitOn_append_cons_self, List.mem_append, List.mem_append] at hg
    rcases hg with hg | hg | hg
    · exact no_leading_zero_groups hf hg h0
    · rw [List.splitOn_nil, List.mem_singleton] at hg
      rw [hg] at h0
      cases h0
    · exact no_leading_zero_groups hf hg h0
  once l r l' r' h h' := by
    rw [(elided_unique hf h).1, (elided_unique hf h').1]
  elided_iff := iff_of_true ⟨_, _, rfl⟩ ⟨start, len, hlong, hbest.run⟩
  elided l r h := by
    obtain ⟨rfl, rfl⟩ := elided_unique hf h
    exact ⟨start, len, hbest, readWords_groups hf _, readWords_groups hf _⟩
  written h := (h ⟨_, _, rfl⟩).elim

theorem canonical_full (hf : fmt.Documented) {segments : List UInt16} {start len : ℕ}
    (hbest : IsLeftmostLongest (· = 0) segments start len) (hshort : ¬1 < len) :
    Canonical segments (groups fmt segments) where
  lower c hc := mem_groups hf hc
  no_leading_zero g hg h0 := no_leading_zero_groups hf hg h0
  once l r l' r' h _ := (not_doubled_groups hf segments ⟨l, r, h⟩).elim
  elided_iff := by
    refine iff_of_false (not_doubled_groups hf segments) ?_
    rintro ⟨s, n, hn, hrun⟩
    have := hbest.longest s n hrun
    omega
  elided l r h := (not_doubled_groups hf segments ⟨l, r, h⟩).elim
  written _ := readWords_groups hf segments

/-- The text of every address outside the dotted branch is the canonical one. -/
theorem toStdString_canonical (hf : fmt.Documented) {addr : Ipv6Addr}
    (h : ¬Ipv4Convertible addr) :
    ∃ t, addr.toStdString fmt = some t ∧ Canonical (segmentList addr) t := by
  obtain ⟨start, len, hbest, htext⟩ := toStdString_eq_hexText fmt h
  refine ⟨_, htext, ?_⟩
  unfold hexText
  split
  · next hlong => exact canonical_elided hf hbest hlong
  · next hshort => exact canonical_full hf hbest hshort

theorem toStdString_canonical_standard :
    ∃ t, (Ipv6Addr.ofSegments 0xfe80 0 0 0 1 0 0 0).toStdString Fmt.standard = some t ∧
      Canonical [0xfe80, 0, 0, 0, 1, 0, 0, 0] t := by
  have hconv : ¬Ipv4Convertible (.ofSegments 0xfe80 0 0 0 1 0 0 0) := by simp
  have h := toStdString_canonical Fmt.standard_documented hconv
  rwa [segmentList_ofSegments] at h

end NetIpv6Canonical
