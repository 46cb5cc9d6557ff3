import Laio.LibPositional
import Laio.LibSeparated
import Laio.NetIpv4Addr

/-! # The scanner of `Ipv4Addr::from` against the dotted-quad grammar

The state of the loop is related to the groups read so far. The scanner accepts a text
exactly if it is a dotted quad or a proper beginning of one. -/
namespace NetIpv4Parsing

open LibPositional NetIpv6Addr NetIpv4Addr

def groupValue (g : Text) : ℕ := Nat.ofDigitChars 10 g 0

/-- One to three decimal digits of value at most 255. -/
structure IsGroup (g : Text) : Prop where
  nonempty : g ≠ []
  short : g.length ≤ 3
  digits : ∀ c ∈ g, c.isDigit
  bounded : groupValue g ≤ 255

/-- Exactly four groups, separated by exactly three periods, and nothing else. -/
structure DottedQuad (s a b c d : Text) : Prop where
  text : s = a ++ '.' :: b ++ '.' :: c ++ '.' :: d
  first : IsGroup a
  second : IsGroup b
  third : IsGroup c
  fourth : IsGroup d

def joined (full : List Text) (cur : Text) : Text := full.flatMap (· ++ ['.']) ++ cur

/-- The invariant of the loop: what the three counters say about the text read so far. -/
structure Scanned (full : List Text) (cur : Text) (s : Scanner) : Prop where
  groups : ∀ g ∈ full, IsGroup g
  digits : ∀ c ∈ cur, c.isDigit
  bounded : groupValue cur ≤ 255
  octet_eq : s.octet = full.length
  octet_le : s.octet ≤ 3
  pos_eq : s.pos = cur.length
  pos_le : s.pos ≤ 3
  buf_eq : s.buf.toList = full.map groupValue ++ groupValue cur :: List.replicate (3 - s.octet) 0

theorem isDigit_iff (c : Char) : c.isDigit ↔ '0' ≤ c ∧ c ≤ '9' := by
  simp [Char.isDigit, Char.le_def]

theorem groupValue_concat (g : Text) (c : Char) :
    groupValue (g ++ [c]) = groupValue g * 10 + (c.toNat - '0'.toNat) := by
  rw [groupValue, ofDigitChars_concat, groupValue, Nat.mul_comm]
  rfl

theorem joined_digit (full : List Text) (cur : Text) (c : Char) :
    joined full cur ++ [c] = joined full (cur ++ [c]) := by
  simp [joined]

theorem joined_period (full : List Text) (cur : Text) :
    joined full cur ++ ['.'] = joined (full ++ [cur]) [] := by
  simp [joined]

theorem scanned_start : Scanned [] [] Scanner.start := by
  constructor <;> simp [Scanner.start, groupValue]

namespace Scanned

variable {full : List Text} {cur : Text} {s s' : Scanner} {c : Char}

theorem isGroup (h : Scanned full cur s) (hne : cur ≠ []) : IsGroup cur :=
  ⟨hne, by have := h.pos_le; rw [← h.pos_eq]; exact this, h.digits, h.bounded⟩

theorem getElem?_buf (s : Scanner) (i : Fin 4) : s.buf.toList[i.val]? = some (s.buf.get i) := by
  rw [List.getElem?_eq_getElem (by simp)]
  rfl

theorem buf_get (h : Scanned full cur s) (hlt : s.octet < 4) :
    s.buf.get ⟨s.octet, hlt⟩ = groupValue cur := by
  apply Option.some.inj
  rw [← getElem?_buf, h.buf_eq]
  simp [h.octet_eq]

theorem step_digit (h : Scanned full cur s) (hc : c.isDigit) (hlen : cur.length < 3)
    (hval : groupValue (cur ++ [c]) ≤ 255) :
    ∃ s', s.step c = some s' ∧ Scanned full (cur ++ [c]) s' := by
  have hoct := h.octet_le
  have hcond : ('0' ≤ c ∧ c ≤ '9') ∧ s.pos < 3 ∧ s.octet < 4 :=
    ⟨(isDigit_iff c).mp hc, by rw [h.pos_eq]; exact hlen, by omega⟩
  have hwrite : (s.buf.set s.octet (groupValue (cur ++ [c])) hcond.2.2).toList =
      full.map groupValue ++ groupValue (cur ++ [c]) :: List.replicate (3 - s.octet) 0 := by
    rw [Vector.toList_set, h.buf_eq, List.set_append_right _ _ (by simp [h.octet_eq])]
    simp [h.octet_eq]
  refine ⟨⟨s.buf.set s.octet (groupValue (cur ++ [c])) hcond.2.2, s.pos + 1, s.octet⟩, ?_, ?_⟩
  · rw [s.step_digit_eq c hcond]
    simp only [h.buf_get hcond.2.2, ← groupValue_concat]
    rw [if_neg (Nat.not_lt.mpr hval)]
  · exact ⟨h.groups, by simpa [or_imp, forall_and, hc] using h.digits, hval, h.octet_eq, hoct,
      by simp [h.pos_eq], by simp [h.pos_eq]; omega, hwrite⟩

theorem step_period (h : Scanned full cur s) (hne : cur ≠ []) (hlen : full.length < 3) :
    ∃ s', s.step '.' = some s' ∧ Scanned (full ++ [cur]) [] s' := by
  have hpos := List.length_pos_iff.mpr hne
  have hle := h.pos_le
  have hpe := h.pos_eq
  have hoe := h.octet_eq
  refine ⟨⟨s.buf, 0, s.octet + 1⟩, ?_, ?_⟩
  · rw [Scanner.step, dif_neg (by simp), if_pos ⟨rfl, by omega, by omega, by omega⟩]
  · refine ⟨?_, by simp, by simp [groupValue], by simp [hoe], by simp; omega, rfl, by simp, ?_⟩
    · intro g hg
      rcases List.mem_append.mp hg with hg | hg
      · exact h.groups g hg
      · obtain rfl : g = cur := by simpa using hg
        exact h.isGroup hne
    · have hrep : 3 - s.octet = (3 - (s.octet + 1)) + 1 := by omega
      simp [h.buf_eq, hrep, List.replicate_succ, groupValue]

theorem step_cases (h : Scanned full cur s) (hs : s.step c = some s') :
    (c.isDigit ∧ Scanned full (cur ++ [c]) s') ∨
    (c = '.' ∧ cur ≠ [] ∧ full.length < 3 ∧ Scanned (full ++ [cur]) [] s') := by
  by_cases hcond : ('0' ≤ c ∧ c ≤ '9') ∧ s.pos < 3 ∧ s.octet < 4
  · have hs₀ := hs
    have hc : c.isDigit := (isDigit_iff c).mpr hcond.1
    rw [s.step_digit_eq c hcond] at hs
    simp only [h.buf_get hcond.2.2, ← groupValue_concat] at hs
    split at hs
    · cases hs
    · next hval =>
      obtain ⟨t, ht, hscan⟩ :=
        h.step_digit hc (by rw [← h.pos_eq]; exact hcond.2.1) (Nat.not_lt.mp hval)
      obtain rfl : t = s' := Option.some.inj (ht.symm.trans hs₀)
      exact Or.inl ⟨hc, hscan⟩
  · have hs₀ := hs
    rw [Scanner.step, dif_neg hcond] at hs
    split at hs
    · next hcond =>
      obtain ⟨rfl, hpos, _, hoct⟩ := hcond
      have hne : cur ≠ [] := by
        rintro rfl
        simp [h.pos_eq] at hpos
      have hlen : full.length < 3 := by rw [← h.octet_eq]; exact hoct
      obtain ⟨t, ht, hscan⟩ := h.step_period hne hlen
      obtain rfl : t = s' := Option.some.inj (ht.symm.trans hs₀)
      exact Or.inr ⟨rfl, hne, hlen, hscan⟩
    · cases hs

end Scanned

theorem foldlM_concat (f : Scanner → Char → Option Scanner) (s : Scanner) (t : Text) (c : Char) :
    (t ++ [c]).foldlM f s = (t.foldlM f s).bind fun u => f u c := by
  simp [List.foldlM_append]

theorem scan_sound {t : Text} {s : Scanner} (h : t.foldlM Scanner.step Scanner.start = some s) :
    ∃ full cur, t = joined full cur ∧ Scanned full cur s := by
  induction t using List.reverseRecOn generalizing s with
  | nil =>
    obtain rfl : Scanner.start = s := by simpa using h
    exact ⟨[], [], rfl, scanned_start⟩
  | append_singleton t c ih =>
    rw [foldlM_concat] at h
    obtain ⟨u, hu, hs⟩ := Option.bind_eq_some_iff.mp h
    obtain ⟨full, cur, rfl, hscan⟩ := ih hu
    rcases hscan.step_cases hs with ⟨_, hd⟩ | ⟨rfl, _, _, hp⟩
    · exact ⟨full, cur ++ [c], joined_digit full cur c, hd⟩
    · exact ⟨full ++ [cur], [], joined_period full cur, hp⟩

theorem groupValue_prefix_le (g : Text) (c : Char) : groupValue g ≤ groupValue (g ++ [c]) := by
  rw [groupValue_concat]
  omega

theorem scan_digits {full : List Text} {s : Scanner} {t : Text} (hs : Scanned full [] s)
    (ht : t.foldlM Scanner.step Scanner.start = some s) {cur : Text}
    (hlen : cur.length ≤ 3) (hd : ∀ c ∈ cur, c.isDigit) (hb : groupValue cur ≤ 255) :
    ∃ s', (t ++ cur).foldlM Scanner.step Scanner.start = some s' ∧ Scanned full cur s' := by
  induction cur using List.reverseRecOn with
  | nil => exact ⟨s, by simpa using ht, hs⟩
  | append_singleton cur c ih =>
    have hle := groupValue_prefix_le cur c
    rw [List.length_append, List.length_singleton] at hlen
    obtain ⟨u, hu, hscan⟩ := ih (by omega) (fun c hc => hd c (by simp [hc])) (by omega)
    obtain ⟨s', hs', hscan'⟩ := hscan.step_digit (hd c (by simp)) (by omega) hb
    refine ⟨s', ?_, hscan'⟩
    rw [← List.append_assoc, foldlM_concat, hu]
    exact hs'

theorem scan_complete {full : List Text} (hfull : ∀ g ∈ full, IsGroup g) (hlen : full.length ≤ 3)
    {cur : Text} (hc : cur.length ≤ 3) (hd : ∀ c ∈ cur, c.isDigit) (hb : groupValue cur ≤ 255) :
    ∃ s, (joined full cur).foldlM Scanner.step Scanner.start = some s ∧ Scanned full cur s := by
  induction full using List.reverseRecOn generalizing cur with
  | nil => simpa [joined] using scan_digits scanned_start (t := []) rfl hc hd hb
  | append_singleton full g ih =>
    have hg := hfull g (by simp)
    rw [List.length_append, List.length_singleton] at hlen
    obtain ⟨u, hu, hscan⟩ := ih (fun g hg => hfull g (by simp [hg])) (by omega)
      hg.short hg.digits hg.bounded
    obtain ⟨v, hv, hscan'⟩ := hscan.step_period hg.nonempty (by omega)
    have hrun : (joined (full ++ [g]) []).foldlM Scanner.step Scanner.start = some v := by
      rw [← joined_period, foldlM_concat, hu]
      exact hv
    obtain ⟨s, hs, hscan''⟩ := scan_digits hscan' hrun hc hd hb
    refine ⟨s, ?_, hscan''⟩
    rw [← hs]
    simp [joined]

/-- An unfinished address: fewer than three periods, or nothing after the third. -/
structure Truncated (t : Text) (full : List Text) (last : Text) : Prop where
  text : t = joined full last
  groups : ∀ g ∈ full, IsGroup g
  last_group : last = [] ∨ IsGroup last
  count : full.length ≤ 3
  unfinished : full.length < 3 ∨ last = []

theorem fromString_eq_some {t : Text} {v : Ipv4Addr} :
    Ipv4Addr.fromString t = some v ↔ ∃ s, t.foldlM Scanner.step Scanner.start = some s ∧
      .ofOctets (UInt8.ofNat (s.buf.get 0)) (UInt8.ofNat (s.buf.get 1))
        (UInt8.ofNat (s.buf.get 2)) (UInt8.ofNat (s.buf.get 3)) = v := by
  simp [Ipv4Addr.fromString, Option.bind_eq_some_iff]

theorem DottedQuad.eq_joined {t a b c d : Text} (h : DottedQuad t a b c d) :
    t = joined [a, b, c] d := by
  simp [h.text, joined]

theorem fromString_quad {t a b c d : Text} (h : DottedQuad t a b c d) :
    Ipv4Addr.fromString t = some (.ofOctets (UInt8.ofNat (groupValue a))
      (UInt8.ofNat (groupValue b)) (UInt8.ofNat (groupValue c)) (UInt8.ofNat (groupValue d))) := by
  have hfull : ∀ g ∈ [a, b, c], IsGroup g := by
    simp [h.first, h.second, h.third]
  obtain ⟨s, hs, hscan⟩ := scan_complete hfull (by simp) h.fourth.short h.fourth.digits
    h.fourth.bounded
  have hbuf : s.buf.toList = [groupValue a, groupValue b, groupValue c, groupValue d] := by
    rw [hscan.buf_eq, hscan.octet_eq]
    simp
  have hget := Scanned.getElem?_buf s
  simp only [hbuf] at hget
  rw [fromString_eq_some]
  refine ⟨s, by rw [h.eq_joined]; exact hs, ?_⟩
  rw [Option.some.inj (hget 0).symm, Option.some.inj (hget 1).symm,
    Option.some.inj (hget 2).symm, Option.some.inj (hget 3).symm]

theorem fromString_isSome_iff (t : Text) : (Ipv4Addr.fromString t).isSome ↔
    (∃ a b c d, DottedQuad t a b c d) ∨ ∃ full last, Truncated t full last := by
  constructor
  · intro h
    obtain ⟨v, hv⟩ := Option.isSome_iff_exists.mp h
    obtain ⟨s, hs, _⟩ := fromString_eq_some.mp hv
    obtain ⟨full, cur, ht, hscan⟩ := scan_sound hs
    have hlen : full.length ≤ 3 := by rw [← hscan.octet_eq]; exact hscan.octet_le
    by_cases hcur : cur = []
    · exact Or.inr ⟨full, cur, ht, hscan.groups, Or.inl hcur, hlen, Or.inr hcur⟩
    by_cases hthree : full.length < 3
    · exact Or.inr ⟨full, cur, ht, hscan.groups, Or.inr (hscan.isGroup hcur), hlen, Or.inl hthree⟩
    · obtain ⟨a, b, c, rfl⟩ := List.length_eq_three.mp (by omega : full.length = 3)
      refine Or.inl ⟨a, b, c, cur, by simp [ht, joined], ?_, ?_, ?_, hscan.isGroup hcur⟩
      · exact hscan.groups a (by simp)
      · exact hscan.groups b (by simp)
      · exact hscan.groups c (by simp)
  · rintro (⟨a, b, c, d, h⟩ | ⟨full, last, h⟩)
    · simp [fromString_quad h]
    · have hlast : last.length ≤ 3 ∧ (∀ c ∈ last, c.isDigit) ∧ groupValue last ≤ 255 := by
        rcases h.last_group with rfl | hl
        · simp [groupValue]
        · exact ⟨hl.short, hl.digits, hl.bounded⟩
      obtain ⟨s, hs, _⟩ := scan_complete h.groups h.count hlast.1 hlast.2.1 hlast.2.2
      rw [Option.isSome_iff_exists]
      exact ⟨_, fromString_eq_some.mpr ⟨s, by rw [h.text]; exact hs, rfl⟩⟩

theorem period_not_mem {g : Text} (h : ∀ c ∈ g, c.isDigit) : '.' ∉ g := by
  intro hm
  exact absurd (h '.' hm) (by decide)

theorem count_joined {full : List Text} (hfull : ∀ g ∈ full, IsGroup g) {cur : Text}
    (hcur : '.' ∉ cur) : (joined full cur).count '.' = full.length := by
  induction full with
  | nil => simpa [joined] using List.count_eq_zero_of_not_mem hcur
  | cons g full ih =>
    have hg := List.count_eq_zero_of_not_mem (period_not_mem (hfull g (by simp)).digits)
    have ih := ih (fun g hg => hfull g (by simp [hg]))
    simp only [joined, List.flatMap_cons, List.append_assoc, List.count_append, hg,
      List.count_singleton_self] at ih ⊢
    rw [List.length_cons]
    omega

theorem DottedQuad.not_truncated {t a b c d : Text} (h : DottedQuad t a b c d)
    {full : List Text} {last : Text} : ¬ Truncated t full last := by
  intro ht
  have hlast : '.' ∉ last := by
    rcases ht.last_group with rfl | hl
    · simp
    · exact period_not_mem hl.digits
  have hclosed : ∀ g ∈ [a, b, c], IsGroup g := by simp [h.first, h.second, h.third]
  have hquad := count_joined hclosed (period_not_mem h.fourth.digits)
  rw [← h.eq_joined, ht.text, count_joined ht.groups hlast] at hquad
  rcases ht.unfinished with hlt | rfl
  · simp [hquad] at hlt
  obtain ⟨x, y, z, rfl⟩ := List.length_eq_three.mp hquad
  have hend : (joined [a, b, c] d).getLast? = (joined [x, y, z] []).getLast? := by
    rw [← h.eq_joined, ht.text]
  rw [show joined [x, y, z] [] = joined [x, y] z ++ ['.'] by simp [joined],
    joined, List.getLast?_append_of_ne_nil _ h.fourth.nonempty, List.getLast?_concat] at hend
  exact period_not_mem h.fourth.digits (List.mem_of_getLast? hend)

/-- The contract of the parser at one input: it accepts exactly dotted quads, and returns
the values of the four groups. -/
def MeetsGrammar (t : Text) : Prop :=
  ((Ipv4Addr.fromString t).isSome ↔ ∃ a b c d, DottedQuad t a b c d) ∧
  ∀ v, Ipv4Addr.fromString t = some v → ∃ a b c d p q r s, DottedQuad t a b c d ∧
    v.octets = (p, q, r, s) ∧ p.toNat = groupValue a ∧ q.toNat = groupValue b ∧
    r.toNat = groupValue c ∧ s.toNat = groupValue d

/-- The parser meets its grammar on every text except the unfinished addresses, all of
which it accepts. -/
theorem meets_grammar_iff (t : Text) :
    MeetsGrammar t ↔ ¬ ∃ full last, Truncated t full last := by
  constructor
  · rintro ⟨haccept, _⟩ ⟨full, last, ht⟩
    have hsome := (fromString_isSome_iff t).mpr (Or.inr ⟨full, last, ht⟩)
    obtain ⟨a, b, c, d, hquad⟩ := haccept.mp hsome
    exact hquad.not_truncated ht
  · intro hfin
    have haccept : (Ipv4Addr.fromString t).isSome ↔ ∃ a b c d, DottedQuad t a b c d := by
      rw [fromString_isSome_iff, or_iff_left hfin]
    refine ⟨haccept, fun v hv => ?_⟩
    obtain ⟨a, b, c, d, hquad⟩ := haccept.mp (by simp [hv])
    rw [fromString_quad hquad] at hv
    obtain rfl := Option.some.inj hv
    have hfit : ∀ {g : Text}, IsGroup g → (UInt8.ofNat (groupValue g)).toNat = groupValue g := by
      intro g hg
      have := hg.bounded
      simp
      omega
    exact ⟨a, b, c, d, _, _, _, _, hquad, rfl, hfit hquad.first, hfit hquad.second,
      hfit hquad.third, hfit hquad.fourth⟩

theorem grammar_violated : ¬ ∀ t, MeetsGrammar t := by
  intro h
  obtain ⟨a, b, c, d, hquad⟩ := (h ['1']).1.mp (by decide)
  have hperiod : '.' ∈ ['1'] := by
    rw [hquad.text]
    simp
  exact absurd hperiod (by decide)

theorem isGroup_toDigits {n : ℕ} (hn : n ≤ 255) : IsGroup (Nat.toDigits 10 n) where
  nonempty := Nat.toDigits_ne_nil
  short := (Nat.length_toDigits_le_iff (by decide) (by decide)).mpr (by omega)
  digits := (canonicalDecimal_toDigits n).digits
  bounded := by rw [groupValue, Nat.ofDigitChars_ten_toDigits]; exact hn

/-- Four canonical decimal numerals up to 255, joined by single periods. -/
structure CanonicalQuad (t a b c d : Text) : Prop where
  text : t = a ++ '.' :: b ++ '.' :: c ++ '.' :: d
  canonical : ∀ g ∈ [a, b, c, d], CanonicalDecimal g
  bounded : ∀ g ∈ [a, b, c, d], groupValue g ≤ 255

theorem CanonicalQuad.dottedQuad {t a b c d : Text} (h : CanonicalQuad t a b c d) :
    DottedQuad t a b c d := by
  have hgroup : ∀ g ∈ [a, b, c, d], IsGroup g := by
    intro g hg
    rw [← toDigits_ofDigitChars (h.canonical g hg)]
    exact isGroup_toDigits (h.bounded g hg)
  exact ⟨h.text, hgroup a (by simp), hgroup b (by simp), hgroup c (by simp), hgroup d (by simp)⟩

variable {fmt : Fmt}

theorem toStdString_dottedQuad (hf : fmt.Documented) (a b c d : UInt8) :
    DottedQuad ((Ipv4Addr.ofOctets a b c d).toStdString fmt) (Nat.toDigits 10 a.toNat)
      (Nat.toDigits 10 b.toNat) (Nat.toDigits 10 c.toNat) (Nat.toDigits 10 d.toNat) := by
  have hbyte : ∀ x : UInt8, x.toNat ≤ 255 := fun x => by have := x.toNat_lt; omega
  refine ⟨?_, isGroup_toDigits (hbyte a), isGroup_toDigits (hbyte b), isGroup_toDigits (hbyte c),
    isGroup_toDigits (hbyte d)⟩
  simp [Ipv4Addr.toStdString, formatQuad, hf.dec_eq]

theorem fromString_toStdString (hf : fmt.Documented) (v : Ipv4Addr) :
    Ipv4Addr.fromString (v.toStdString fmt) = some v := by
  obtain ⟨a, b, c, d, rfl⟩ := v.exists_ofOctets
  rw [fromString_quad (toStdString_dottedQuad hf a b c d)]
  simp [groupValue]

/-- The formatter and the parser are inverse to each other, on all addresses and on all
canonical texts. -/
theorem format_parse_inverse (hf : fmt.Documented) :
    (∀ v : Ipv4Addr, ∃ w, Ipv4Addr.fromString (v.toStdString fmt) = some w ∧ (w == v) = true) ∧
    ∀ t, (∃ a b c d, CanonicalQuad t a b c d) →
      ∃ v, Ipv4Addr.fromString t = some v ∧ v.toStdString fmt = t := by
  constructor
  · intro v
    exact ⟨v, fromString_toStdString hf v, beq_self_eq_true v⟩
  · rintro t ⟨a, b, c, d, h⟩
    refine ⟨_, fromString_quad h.dottedQuad, ?_⟩
    have hprint : ∀ g ∈ [a, b, c, d], Nat.toDigits 10 (UInt8.ofNat (groupValue g)).toNat = g := by
      intro g hg
      have hb := h.bounded g hg
      rw [UInt8.toNat_ofNat', Nat.mod_eq_of_lt (by omega)]
      exact toDigits_ofDigitChars (h.canonical g hg)
    simp only [Ipv4Addr.toStdString, Ipv4Addr.octets_ofOctets, formatQuad, hf.dec_eq]
    rw [hprint a (by simp), hprint b (by simp), hprint c (by simp), hprint d (by simp), h.text]

theorem format_parse_inverse_standard :
    (∃ w, Ipv4Addr.fromString ((Ipv4Addr.ofOctets 127 0 0 1).toStdString Fmt.standard) = some w ∧
      (w == Ipv4Addr.ofOctets 127 0 0 1) = true) ∧
    ∃ v, Ipv4Addr.fromString ['1', '0', '.', '0', '.', '0', '.', '7'] = some v ∧
      v.toStdString Fmt.standard = ['1', '0', '.', '0', '.', '0', '.', '7'] := by
  have h := format_parse_inverse Fmt.standard_documented
  have hgroups : ∀ g ∈ [['1', '0'], ['0'], ['0'], ['7']],
      CanonicalDecimal g ∧ groupValue g ≤ 255 := by
    intro g hg
    simp only [List.mem_cons, List.not_mem_nil, or_false] at hg
    rcases hg with rfl | rfl | rfl | rfl <;> exact ⟨⟨by decide, by simp, by decide⟩, by decide⟩
  exact ⟨h.1 _, h.2 _ ⟨['1', '0'], ['0'], ['0'], ['7'], rfl, fun g hg => (hgroups g hg).1,
    fun g hg => (hgroups g hg).2⟩⟩

end NetIpv4Parsing
