import Laio.NetIpv4Reader
import Laio.NetIpv6Lossless

/-! # The length of the text of an IPv6 address

A text that denotes an address is at least as long as the groups it does not elide, and the
longest run is the best one to elide, up to the colon that a run at an end saves less. -/
namespace NetIpv6Shortest

open LibLongestRun LibPositional LibSeparated
open NetIpv6Addr NetIpv4Addr NetIpv4Parsing NetIpv4Reader NetIpv6Text NetIpv6Lossless

def digits (segments : List UInt16) : ℕ :=
  (segments.map fun w => (Nat.toDigits 16 w.toNat).length).sum

variable {fmt : Fmt}

theorem length_groups (hf : fmt.Documented) (segments : List UInt16) :
    (groups fmt segments).length = digits segments + (segments.length - 1) := by
  rw [groups, length_join, List.length_map, List.map_map]
  simp only [hf.hex_eq]
  rfl

theorem digits_append (xs ys : List UInt16) : digits (xs ++ ys) = digits xs + digits ys := by
  simp [digits]

theorem digits_zeros (n : ℕ) : digits (List.replicate n 0) = n := by
  simp [digits]

theorem hexDigit?_lt {c : Char} {d : ℕ} (h : hexDigit? c = some d) : d < 16 := by
  have hle : ∀ {a b : Char}, a ≤ b → a.toNat ≤ b.toNat := fun hab => hab
  simp only [hexDigit?] at h
  split_ifs at h with hc hc hc
  all_goals
    have := hle hc.2
    obtain rfl := Option.some.inj h
    simp at this ⊢
    omega

theorem length_toDigits_le_of_readGroup {g : Text} {w : UInt16} (h : readGroup g = some w) :
    (Nat.toDigits 16 w.toNat).length ≤ g.length := by
  simp only [readGroup, Option.ite_none_right_eq_some] at h
  obtain ⟨⟨hpos, hfour⟩, hread⟩ := h
  obtain ⟨n, hn, rfl⟩ := Option.map_eq_some_iff.mp hread
  have hlt := readDigits_lt (fun c d => hexDigit?_lt) hn
  have hmod : (UInt16.ofNat n).toNat ≤ n := by
    rw [UInt16.toNat_ofNat']
    exact Nat.mod_le _ _
  exact (Nat.length_toDigits_le_iff (by decide) hpos).mpr (Nat.lt_of_le_of_lt hmod hlt)

theorem length_groups_le {t : Text} {ws : List UInt16} (h : readWords readGroup ':' t = some ws) :
    digits ws + (ws.length - 1) ≤ t.length := by
  have hle : ([':'].intercalate (ws.map fun w => Nat.toDigits 16 w.toNat)).length ≤ t.length :=
    length_join_le_of_readWords (fun _ _ => length_toDigits_le_of_readGroup) h
  rw [length_join, List.length_map, List.map_map] at hle
  exact hle

/-- The ways to write segments: all of them, or without a run of zeros. -/
inductive Denotes (segments : List UInt16) (length : ℕ) : Prop where
  | full : digits segments + 7 ≤ length → Denotes segments length
  | elided {start len : ℕ} : 0 < len → IsRun (· = 0) segments start len →
      digits segments + 8 ≤ length + 2 * len → Denotes segments length

theorem isRun_elided (ls rs : List UInt16) (n : ℕ) :
    IsRun (· = 0) (ls ++ List.replicate n 0 ++ rs) ls.length n where
  within := by simp
  all i hlo hhi := by
    refine ⟨0, ?_, rfl⟩
    rw [List.append_assoc, List.getElem?_append_right hlo,
      List.getElem?_append_left (by rw [List.length_replicate]; omega), List.getElem?_replicate,
      if_pos (by omega)]

theorem denotes_of_readAddress {u : Text} {segments : List UInt16}
    (h : readAddress u = some segments) : Denotes segments u.length := by
  unfold readAddress at h
  split at h
  · simp only [Option.bind_eq_bind, Option.bind_eq_some_iff,
      Option.ite_none_right_eq_some, Option.some.injEq] at h
    obtain ⟨ws, hws, hlen, rfl⟩ := h
    have hle := length_groups_le hws
    rw [hlen] at hle
    exact .full hle
  · next l r hcut =>
    simp only [Option.bind_eq_bind, Option.bind_eq_some_iff,
      Option.ite_none_right_eq_some, Option.some.injEq] at h
    obtain ⟨ls, hls, rs, hrs, hgiven, rfl⟩ := h
    have hl := length_groups_le hls
    have hr := length_groups_le hrs
    have hu := congrArg List.length (eq_of_cutDouble hcut)
    refine .elided (by omega) (isRun_elided ls rs (8 - (ls.length + rs.length))) ?_
    simp only [List.length_append, List.length_cons] at hu
    rw [digits_append, digits_append, digits_zeros]
    omega

theorem digits_le (segments : List UInt16) : digits segments ≤ 4 * segments.length := by
  induction segments with
  | nil => exact Nat.zero_le _
  | cons w ws ih =>
    have hw : (Nat.toDigits 16 w.toNat).length ≤ 4 :=
      (Nat.length_toDigits_le_iff (by decide) (by decide)).mpr w.toNat_lt
    simp only [digits, List.map_cons, List.sum_cons, List.length_cons] at ih ⊢
    omega

/-- What the printed text saves: two characters for each zero of the elided run, but one,
and one more if the run touches an end. -/
structure Printed (segments : List UInt16) (start len length : ℕ) : Prop where
  best : IsLeftmostLongest (· = 0) segments start len
  full : len ≤ 1 → length = digits segments + 7
  elided : 1 < len → length + 2 * len ≤ digits segments + 9
  inner : 1 < len → 0 < start → start + len < 8 → length + 2 * len = digits segments + 8

theorem printed_hexText (hf : fmt.Documented) {segments : List UInt16}
    (hlen : segments.length = 8) {start len : ℕ}
    (hbest : IsLeftmostLongest (· = 0) segments start len) (hnonzero : len < 8) :
    Printed segments start len (hexText fmt segments start len).length := by
  have hspan := hbest.run.within
  -- the digits outside the run, and one for each of its zeros
  have hdigits : digits segments =
      digits (segments.take start) + len + digits (segments.drop (start + len)) := by
    conv_lhs => rw [← hbest.run.elided]
    rw [digits_append, digits_append, digits_zeros]
  have hfull : len ≤ 1 →
      (hexText fmt segments start len).length = digits segments + 7 := by
    intro hshort
    rw [hexText, if_neg (Nat.not_lt.mpr hshort), length_groups hf, hlen]
  have helided : 1 < len → (hexText fmt segments start len).length =
      digits (segments.take start) + (start - 1) + 2 +
        (digits (segments.drop (start + len)) + (8 - (start + len) - 1)) := by
    intro hlong
    rw [hexText, if_pos hlong, List.length_append, List.length_cons, List.length_cons,
      length_groups hf, length_groups hf, List.length_take, List.length_drop, hlen,
      Nat.min_eq_left (by omega)]
    omega
  refine ⟨hbest, hfull, fun hlong => ?_, fun hlong hstart hend => ?_⟩
  · have := helided hlong
    omega
  · have := helided hlong
    omega

theorem lt_eight_of_not_convertible {addr : Ipv6Addr} (h : ¬Ipv4Convertible addr)
    {start len : ℕ} (hrun : IsRun (· = 0) (segmentList addr) start len) : len < 8 := by
  by_contra hle
  have hspan := hrun.within
  rw [length_segmentList] at hspan
  obtain rfl : start = 0 := by omega
  have hzero : ∀ i < 8, (segmentList addr)[i]? = some 0 := by
    intro i hi
    obtain ⟨x, hx, rfl⟩ := hrun.all i (Nat.zero_le i) (by omega)
    exact hx
  obtain ⟨a, b, c, d, e, f, g, i, rfl⟩ := addr.exists_ofSegments
  rw [segmentList_ofSegments] at hzero
  refine h ((ipv4Convertible_ofSegments ..).mpr ⟨?_, ?_, ?_, ?_, ?_, Or.inl ?_⟩)
  · simpa using hzero 0 (by decide)
  · simpa using hzero 1 (by decide)
  · simpa using hzero 2 (by decide)
  · simpa using hzero 3 (by decide)
  · simpa using hzero 4 (by decide)
  · simpa using hzero 5 (by decide)

theorem toStdString_printed (hf : fmt.Documented) {addr : Ipv6Addr} (h : ¬Ipv4Convertible addr) :
    ∃ t start len, addr.toStdString fmt = some t ∧
      Printed (segmentList addr) start len t.length := by
  obtain ⟨start, len, hbest, htext⟩ := toStdString_eq_hexText fmt h
  exact ⟨_, start, len, htext, printed_hexText hf (length_segmentList addr) hbest
    (lt_eight_of_not_convertible h hbest.run)⟩

theorem Printed.length_le {segments : List UInt16} {start len length length' : ℕ}
    (h : Printed segments start len length) (h' : Denotes segments length') :
    length ≤ length' + 1 ∧
      (1 < len → 0 < start → start + len < 8 → length ≤ length') := by
  have hshort := h.full
  have hlong := h.elided
  have hinner := h.inner
  cases h' with
  | full hlength => omega
  | @elided s n hpos hrun hlength =>
    have hbest := h.best.longest s n hrun
    omega

theorem length_toStdString_convertible (hf : fmt.Documented) {addr : Ipv6Addr}
    (hconv : Ipv4Convertible addr) : ∃ t, addr.toStdString fmt = some t ∧ t.length ≤ 22 := by
  obtain ⟨f, g, h, hf', rfl⟩ := (ipv4Convertible_iff addr).mp hconv
  by_cases hgh : g = 0 ∧ (h = 0 ∨ h = 1)
  · obtain ⟨rfl, rfl | rfl⟩ := hgh
    · exact ⟨_, toStdString_zero hf', by decide⟩
    · exact ⟨_, toStdString_one hf', by decide⟩
  · refine ⟨_, toStdString_low hf' hgh, ?_⟩
    have hquad : ((quad g h).toStdString fmt).length ≤ 15 :=
      length_le_of_dottedQuad (toStdString_dottedQuad hf _ _ _ _)
    have hprefix : (quadPrefix f).length ≤ 7 := by
      rcases hf' with rfl | rfl <;> decide
    rw [List.length_append]
    omega

/-- Every text has at most 39 characters. Outside the dotted branch no text of the
hexadecimal notation that denotes the address is shorter by more than one character, and
none is shorter if the elided run touches neither end. -/
theorem toStdString_nearly_shortest (hf : fmt.Documented) (addr : Ipv6Addr) :
    ∃ t, addr.toStdString fmt = some t ∧ t.length ≤ 39 ∧
      (¬Ipv4Convertible addr → ∀ u, readAddress u = some (segmentList addr) →
        t.length ≤ u.length + 1 ∧
        ∀ start len, IsLeftmostLongest (· = 0) (segmentList addr) start len → 1 < len →
          0 < start → start + len < 8 → t.length ≤ u.length) := by
  by_cases h : Ipv4Convertible addr
  · obtain ⟨t, ht, hlen⟩ := length_toStdString_convertible hf h
    exact ⟨t, ht, by omega, fun hn => (hn h).elim⟩
  · obtain ⟨t, start, len, ht, hprinted⟩ := toStdString_printed hf h
    refine ⟨t, ht, ?_, fun _ u hu => ?_⟩
    · have hdigits := digits_le (segmentList addr)
      rw [length_segmentList] at hdigits
      have hfull := hprinted.full
      have helided := hprinted.elided
      omega
    · obtain ⟨hle, hinner⟩ := hprinted.length_le (denotes_of_readAddress hu)
      refine ⟨hle, fun start' len' hbest => ?_⟩
      -- the leftmost longest run is unique
      obtain rfl : len' = len := Nat.le_antisymm (hprinted.best.longest _ _ hbest.run)
        (hbest.longest _ _ hprinted.best.run)
      obtain rfl : start' = start := Nat.le_antisymm (hbest.leftmost _ hprinted.best.run)
        (hprinted.best.leftmost _ hbest.run)
      exact hinner

theorem toStdString_nearly_shortest_standard :
    ∃ t, (Ipv6Addr.ofSegments 0 0 1 0 0 1 2 3).toStdString Fmt.standard = some t ∧
      t.length ≤ ['0', ':', '0', ':', '1', ':', ':', '1', ':', '2', ':', '3'].length + 1 := by
  have hconv : ¬Ipv4Convertible (.ofSegments 0 0 1 0 0 1 2 3) := by simp
  obtain ⟨t, ht, _, hshort⟩ :=
    toStdString_nearly_shortest Fmt.standard_documented (.ofSegments 0 0 1 0 0 1 2 3)
  refine ⟨t, ht, (hshort hconv _ ?_).1⟩
  rw [segmentList_ofSegments]
  decide

end NetIpv6Shortest
