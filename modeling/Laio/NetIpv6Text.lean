import Laio.LibLongestRun
import Laio.LibSeparated
import Laio.NetIpv4Parsing

/-! # The text form of IPv6 addresses

The emitting loops are reduced once to joined groups around the leftmost longest run of
zero segments. A reference reader of the hexadecimal notation then inverts the text. -/
namespace NetIpv6Text

open LibLongestRun LibLoops LibPositional LibSeparated LibWords
open NetIpv6Addr NetIpv4Addr NetIpv4Parsing

def segmentList (addr : Ipv6Addr) : List UInt16 :=
  let (a, b, c, d, e, f, g, h) := addr.segments
  [a, b, c, d, e, f, g, h]

/-- First five segments zero and the sixth zero or all ones: written in dotted form. -/
def Ipv4Convertible (addr : Ipv6Addr) : Prop :=
  let (a, b, c, d, e, f, _, _) := addr.segments
  a = 0 ∧ b = 0 ∧ c = 0 ∧ d = 0 ∧ e = 0 ∧ (f = 0 ∨ f = 0xffff)

@[simp] theorem segmentList_ofSegments (a b c d e f g h : UInt16) :
    segmentList (.ofSegments a b c d e f g h) = [a, b, c, d, e, f, g, h] := by
  simp [segmentList]

@[simp] theorem ipv4Convertible_ofSegments (a b c d e f g h : UInt16) :
    Ipv4Convertible (.ofSegments a b c d e f g h) ↔
      a = 0 ∧ b = 0 ∧ c = 0 ∧ d = 0 ∧ e = 0 ∧ (f = 0 ∨ f = 0xffff) := by
  simp [Ipv4Convertible]

theorem length_segmentList (addr : Ipv6Addr) : (segmentList addr).length = 8 := rfl

theorem segmentList_injective : Function.Injective segmentList := by
  intro x y h
  obtain ⟨a, b, c, d, e, f, g, i, rfl⟩ := x.exists_ofSegments
  obtain ⟨a', b', c', d', e', f', g', i', rfl⟩ := y.exists_ofSegments
  rw [Ipv6Addr.ofSegments_inj]
  simpa using h

theorem take_succ_eq {α : Type*} {l : List α} {i : ℕ} {x : α} (h : l[i]? = some x) :
    l.take (i + 1) = l.take i ++ [x] := by
  rw [List.take_add_one, h]
  rfl

/-- What the four counters mean after the first `k` segments. -/
structure ScanInv (segments : List UInt16) (k : ℕ) (s : ZeroSpan) : Prop where
  best : IsLeftmostLongest (· = 0) (segments.take k) s.zeroSpanAt s.zeroSpanLen
  current : IsTrailing (· = 0) (segments.take k) s.curSpanLen
  current_at : 0 < s.curSpanLen → s.curSpanAt + s.curSpanLen = k

theorem scanStep_inv {segments : List UInt16} {k : ℕ} {s : ZeroSpan} (hk : k < segments.length)
    (h : ScanInv segments k s) :
    ∃ t, scanStep segments s k = some t ∧ ScanInv segments (k + 1) t := by
  have hget : segments[k]? = some segments[k] := List.getElem?_eq_getElem hk
  have htake := take_succ_eq hget
  have hlen : (segments.take k ++ [segments[k]]).length = k + 1 := by
    rw [← htake, List.length_take]
    omega
  by_cases hz : segments[k] = 0
  · have hcur := h.current.snoc_pos (x := segments[k]) hz
    -- the start of the current span, freshly set when the span is empty
    obtain ⟨start, hstart⟩ : ∃ start, start = if s.curSpanLen = 0 then k else s.curSpanAt :=
      ⟨_, rfl⟩
    have hat : start + (s.curSpanLen + 1) = k + 1 := by
      rw [hstart]
      split
      · omega
      · have := h.current_at (by omega)
        omega
    by_cases hgrow : s.zeroSpanLen < s.curSpanLen + 1
    · refine ⟨⟨s.curSpanLen + 1, start, s.curSpanLen + 1, start⟩, ?_, ?_, ?_, fun _ => hat⟩
      · simp [scanStep, hget, hz, hgrow, hstart]
      · have hbest := h.best.snoc_grow hcur hgrow
        rw [hlen, show k + 1 - (s.curSpanLen + 1) = start by omega] at hbest
        rw [htake]
        exact hbest
      · rw [htake]
        exact hcur
    · refine ⟨⟨s.zeroSpanLen, s.zeroSpanAt, s.curSpanLen + 1, start⟩, ?_, ?_, ?_, fun _ => hat⟩
      · simp [scanStep, hget, hz, hgrow, hstart]
      · rw [htake]
        exact h.best.snoc_keep hcur (by omega)
      · rw [htake]
        exact hcur
  · refine ⟨⟨s.zeroSpanLen, s.zeroSpanAt, 0, 0⟩, ?_, ?_, ?_, fun hpos => absurd hpos (by simp)⟩
    · simp [scanStep, hget, hz]
    · rw [htake]
      exact h.best.snoc_neg hz
    · rw [htake]
      exact isTrailing_snoc_neg _ hz

/-- The scan stays inside the array and finds the leftmost longest run of zeros. -/
theorem scanZeroSpan_spec {segments : List UInt16} (hlen : segments.length = 8) :
    ∃ s, scanZeroSpan segments = some s ∧
      IsLeftmostLongest (· = 0) segments s.zeroSpanAt s.zeroSpanLen := by
  have hstart : ScanInv segments 0 ⟨0, 0, 0, 0⟩ :=
    ⟨by simpa using isLeftmostLongest_nil, by simpa using isTrailing_nil,
      fun h => absurd h (by simp)⟩
  obtain ⟨s, hs, hinv⟩ := forLoop_rule (ScanInv segments) (Nat.zero_le 8) hstart
    (fun i s _ hi h => scanStep_inv (by omega) h)
  have hbest := hinv.best
  rw [List.take_of_length_le (by omega)] at hbest
  exact ⟨s, hs, hbest⟩

variable {fmt : Fmt}

def groups (fmt : Fmt) (segments : List UInt16) : Text :=
  [':'].intercalate (segments.map fun w => fmt.hex w.toNat)

/-- The hexadecimal notation around a run of zeros, which is elided if it is longer than
one segment. -/
def hexText (fmt : Fmt) (segments : List UInt16) (zeroSpanAt zeroSpanLen : ℕ) : Text :=
  if 1 < zeroSpanLen then
    groups fmt (segments.take zeroSpanAt) ++
      ':' :: ':' :: groups fmt (segments.drop (zeroSpanAt + zeroSpanLen))
  else
    groups fmt segments

theorem groups_snoc {segments : List UInt16} (hne : segments ≠ []) (w : UInt16) :
    groups fmt (segments ++ [w]) = groups fmt segments ++ ':' :: fmt.hex w.toNat := by
  obtain ⟨v, segments, rfl⟩ := List.exists_cons_of_ne_nil hne
  simp [groups, join_cons]

theorem emit_groups (fmt : Fmt) {segments : List UInt16} {lo hi : ℕ} {w : UInt16} (b : Text)
    (hw : segments[lo]? = some w) (hlo : lo < hi) (hhi : hi ≤ segments.length) :
    forLoop (lo + 1) hi (emitSegment fmt segments) (b ++ fmt.hex w.toNat) =
      some (b ++ groups fmt ((segments.take hi).drop lo)) := by
  have hstep : ∀ i v, lo ≤ i → segments[i]? = some v →
      (segments.take (i + 1)).drop lo = (segments.take i).drop lo ++ [v] := by
    intro i v hi hv
    obtain ⟨hlt, _⟩ := List.getElem?_eq_some_iff.mp hv
    rw [take_succ_eq hv, List.drop_append_of_le_length (by rw [List.length_take]; omega)]
  have hfirst : (segments.take (lo + 1)).drop lo = [w] := by
    rw [hstep lo w le_rfl hw, List.drop_of_length_le (by simp), List.nil_append]
  have hbody : ∀ i t, lo + 1 ≤ i → i < hi → t = b ++ groups fmt ((segments.take i).drop lo) →
      ∃ t', emitSegment fmt segments t i = some t' ∧
        t' = b ++ groups fmt ((segments.take (i + 1)).drop lo) := by
    intro i t hi hhi' ht
    obtain ⟨v, hv⟩ : ∃ v, segments[i]? = some v := ⟨_, List.getElem?_eq_getElem (by omega)⟩
    have hne : (segments.take i).drop lo ≠ [] := by
      rw [Ne, List.drop_eq_nil_iff, List.length_take]
      omega
    refine ⟨t ++ ':' :: fmt.hex v.toNat, by simp [emitSegment, hv], ?_⟩
    rw [hstep i v (by omega) hv, groups_snoc hne, ht, List.append_assoc]
  have hstart : b ++ fmt.hex w.toNat = b ++ groups fmt ((segments.take (lo + 1)).drop lo) := by
    rw [hfirst]
    simp [groups]
  obtain ⟨t, ht, rfl⟩ := forLoop_rule
    (fun i t => t = b ++ groups fmt ((segments.take i).drop lo)) hlo hstart hbody
  exact ht

theorem formatCompressed_eq {segments : List UInt16} (hlen : segments.length = 8)
    {zeroSpanAt zeroSpanLen : ℕ} (hspan : zeroSpanAt + zeroSpanLen ≤ 8) :
    formatCompressed fmt segments zeroSpanAt zeroSpanLen =
      some (groups fmt (segments.take zeroSpanAt) ++
        ':' :: ':' :: groups fmt (segments.drop (zeroSpanAt + zeroSpanLen))) := by
  have hleading : (if zeroSpanAt ≠ 0 then do
      let segment ← segments[0]?
      forLoop 1 zeroSpanAt (emitSegment fmt segments) (fmt.hex segment.toNat)
    else some []) = some (groups fmt (segments.take zeroSpanAt)) := by
    split
    · next hne =>
      have hw : segments[0]? = some segments[0] := List.getElem?_eq_getElem (by omega)
      have hloop := emit_groups fmt [] hw (by omega : 0 < zeroSpanAt) (by omega)
      rw [hw]
      simpa using hloop
    · next heq =>
      rw [not_not] at heq
      simp [heq, groups]
  rw [formatCompressed, hleading]
  by_cases hend : zeroSpanAt + zeroSpanLen < 8
  · obtain ⟨w, hw⟩ : ∃ w, segments[zeroSpanAt + zeroSpanLen]? = some w :=
      ⟨_, List.getElem?_eq_getElem (by omega)⟩
    have hloop := emit_groups fmt (groups fmt (segments.take zeroSpanAt) ++ [':', ':'])
      hw hend (by omega)
    rw [List.take_of_length_le hlen.le] at hloop
    simpa [hend, hw] using hloop
  · rw [List.drop_of_length_le (by omega)]
    simp [hend, groups]

theorem toStdString_eq_hexText (fmt : Fmt) {addr : Ipv6Addr} (h : ¬ Ipv4Convertible addr) :
    ∃ zeroSpanAt zeroSpanLen,
      IsLeftmostLongest (· = 0) (segmentList addr) zeroSpanAt zeroSpanLen ∧
      addr.toStdString fmt = some (hexText fmt (segmentList addr) zeroSpanAt zeroSpanLen) := by
  obtain ⟨s, hs, hbest⟩ := scanZeroSpan_spec (length_segmentList addr)
  refine ⟨s.zeroSpanAt, s.zeroSpanLen, hbest, ?_⟩
  have hspan := hbest.run.within
  rw [length_segmentList] at hspan
  obtain ⟨a, b, c, d, e, f, g, i, rfl⟩ := addr.exists_ofSegments
  rw [ipv4Convertible_ofSegments] at h
  rw [segmentList_ofSegments] at hs ⊢
  simp only [Ipv6Addr.toStdString, Ipv6Addr.segments_ofSegments, if_neg h, hs, hexText]
  by_cases hlong : 1 < s.zeroSpanLen
  · simpa [hlong] using formatCompressed_eq (by rfl) hspan
  · simp [hlong, groups]

def hexDigit? (c : Char) : Option ℕ :=
  if '0' ≤ c ∧ c ≤ '9' then some (c.toNat - '0'.toNat)
  else if 'a' ≤ c ∧ c ≤ 'f' then some (c.toNat - 'a'.toNat + 10)
  else if 'A' ≤ c ∧ c ≤ 'F' then some (c.toNat - 'A'.toNat + 10)
  else none

def readGroup (t : Text) : Option UInt16 :=
  if 0 < t.length ∧ t.length ≤ 4 then (readDigits hexDigit? 16 t).map UInt16.ofNat else none

/-- Eight groups, or fewer around one double colon that stands for the missing zeros. -/
def readAddress (t : Text) : Option (List UInt16) :=
  match cutDouble ':' t with
  | none => do
    let ws ← readWords readGroup ':' t
    if ws.length = 8 then some ws else none
  | some (l, r) => do
    let ls ← readWords readGroup ':' l
    let rs ← readWords readGroup ':' r
    let given := ls.length + rs.length
    if given < 8 then some (ls ++ List.replicate (8 - given) 0 ++ rs) else none

theorem hexDigit?_digitChar : ∀ d < 16, hexDigit? (Nat.digitChar d) = some d := by decide

theorem readGroup_toDigits (w : UInt16) : readGroup (Nat.toDigits 16 w.toNat) = some w := by
  have hpos : 0 < (Nat.toDigits 16 w.toNat).length :=
    List.length_pos_iff.mpr Nat.toDigits_ne_nil
  have hle : (Nat.toDigits 16 w.toNat).length ≤ 4 :=
    (Nat.length_toDigits_le_iff (by decide) (by decide)).mpr w.toNat_lt
  rw [readGroup, if_pos ⟨hpos, hle⟩, readDigits_toDigits (by decide) hexDigit?_digitChar]
  simp

theorem not_mem_toDigits_hex {c : Char} (hc : hexDigit? c = none) (n : ℕ) :
    c ∉ Nat.toDigits 16 n := by
  intro hm
  obtain ⟨d, hd, rfl⟩ := mem_toDigits (by decide) hm
  rw [hexDigit?_digitChar d hd] at hc
  cases hc

theorem hex_word (hf : fmt.Documented) (w : UInt16) :
    fmt.hex w.toNat ≠ [] ∧ ':' ∉ fmt.hex w.toNat := by
  rw [hf.hex_eq]
  exact ⟨Nat.toDigits_ne_nil, not_mem_toDigits_hex (by decide) _⟩

theorem readWords_groups (hf : fmt.Documented) (segments : List UInt16) :
    readWords readGroup ':' (groups fmt segments) = some segments :=
  readWords_join (fun w _ => by rw [hf.hex_eq, readGroup_toDigits]) fun w _ => hex_word hf w

theorem cutDouble_groups (hf : fmt.Documented) (segments : List UInt16) (l : Text) :
    cutDouble ':' (groups fmt segments ++ l) =
      (cutDouble ':' l).map fun p => (groups fmt segments ++ p.1, p.2) := by
  apply cutDouble_join_append
  intro w hw
  obtain ⟨v, _, rfl⟩ := List.mem_map.mp hw
  exact hex_word hf v

theorem readAddress_hexText (hf : fmt.Documented) {segments : List UInt16}
    (hlen : segments.length = 8) {zeroSpanAt zeroSpanLen : ℕ}
    (hrun : IsRun (· = 0) segments zeroSpanAt zeroSpanLen) :
    readAddress (hexText fmt segments zeroSpanAt zeroSpanLen) = some segments := by
  have hspan := hrun.within
  unfold hexText
  split
  · next hlong =>
    -- eight minus the groups that are left is the length of the run
    have hgiven : (segments.take zeroSpanAt).length +
        (segments.drop (zeroSpanAt + zeroSpanLen)).length = 8 - zeroSpanLen := by
      rw [List.length_take, List.length_drop]
      omega
    rw [readAddress, cutDouble_groups hf, cutDouble_sep_sep]
    simp only [Option.map_some, List.append_nil, readWords_groups hf, Option.bind_eq_bind,
      Option.bind_some, hgiven]
    rw [if_pos (by omega), show 8 - (8 - zeroSpanLen) = zeroSpanLen by omega, hrun.elided]
  · have hcut := cutDouble_groups hf segments []
    rw [List.append_nil, cutDouble_nil, Option.map_none] at hcut
    rw [readAddress, hcut]
    simp [readWords_groups hf, hlen]

/-- The text of every address outside the dotted branch is produced without leaving the
segment array, and denotes exactly the segments of the address. -/
theorem hexadecimal_round_trip (hf : fmt.Documented) {addr : Ipv6Addr}
    (h : ¬ Ipv4Convertible addr) :
    ∃ t, addr.toStdString fmt = some t ∧ readAddress t = some (segmentList addr) := by
  obtain ⟨zeroSpanAt, zeroSpanLen, hbest, htext⟩ := toStdString_eq_hexText fmt h
  exact ⟨_, htext, readAddress_hexText hf (length_segmentList addr) hbest.run⟩

theorem hexadecimal_round_trip_standard :
    ∃ t, (Ipv6Addr.ofSegments 0xfe80 0 0 0 1 0 0 2).toStdString Fmt.standard = some t ∧
      readAddress t = some [0xfe80, 0, 0, 0, 1, 0, 0, 2] := by
  have hconv : ¬ Ipv4Convertible (.ofSegments 0xfe80 0 0 0 1 0 0 2) := by simp
  have h := hexadecimal_round_trip Fmt.standard_documented hconv
  rwa [segmentList_ofSegments] at h

end NetIpv6Text
