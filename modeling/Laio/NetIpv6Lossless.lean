import Laio.NetIpEmbedding
import Laio.NetIpv6Text

/-! # What the text of an IPv6 address determines

Every text denotes one address. Two mapped addresses are printed as texts that denote
other addresses; all others are recovered. -/
namespace NetIpv6Lossless

open LibPositional LibSeparated LibWords
open NetIpv6Addr NetIpv4Addr NetIpv4Parsing NetIpEmbedding NetIpv6Text

def low (f g h : UInt16) : Ipv6Addr := .ofSegments 0 0 0 0 0 f g h

/-- The IPv4-mapped `0.0.0.h` with `h ≤ 1` and the compatible address with the same last
segment, in either order. -/
def Shadowed (x y : Ipv6Addr) : Prop :=
  ∃ h : UInt16, (h = 0 ∨ h = 1) ∧
    (x = low 0 0 h ∧ y = low 0xffff 0 h ∨ x = low 0xffff 0 h ∧ y = low 0 0 h)

/-- The address that the text of `x` denotes. -/
def denoted (x : Ipv6Addr) : Ipv6Addr :=
  if x == low 0xffff 0 0 then low 0 0 0
  else if x == low 0xffff 0 1 then low 0 0 1
  else x

theorem low_inj {f g h f' g' h' : UInt16} :
    low f g h = low f' g' h' ↔ f = f' ∧ g = g' ∧ h = h' := by
  simp [low, Ipv6Addr.ofSegments_inj]

theorem ipv4Convertible_iff (x : Ipv6Addr) :
    Ipv4Convertible x ↔ ∃ f g h, (f = 0 ∨ f = 0xffff) ∧ x = low f g h := by
  obtain ⟨a, b, c, d, e, f, g, h, rfl⟩ := x.exists_ofSegments
  simp only [ipv4Convertible_ofSegments, low, Ipv6Addr.ofSegments_inj]
  constructor
  · rintro ⟨rfl, rfl, rfl, rfl, rfl, hf⟩
    exact ⟨f, g, h, hf, rfl, rfl, rfl, rfl, rfl, rfl, rfl, rfl⟩
  · rintro ⟨f', g', h', hf, rfl, rfl, rfl, rfl, rfl, rfl, rfl, rfl⟩
    exact ⟨rfl, rfl, rfl, rfl, rfl, hf⟩

variable {fmt : Fmt}

def quadPrefix (f : UInt16) : Text :=
  if f = 0 then [':', ':'] else [':', ':', 'f', 'f', 'f', 'f', ':']

def quad (g h : UInt16) : Ipv4Addr :=
  .ofOctets (highByte g) (lowByte g) (highByte h) (lowByte h)

theorem toStdString_zero {f : UInt16} (hf : f = 0 ∨ f = 0xffff) :
    (low f 0 0).toStdString fmt = some [':', ':'] := by
  simp [low, Ipv6Addr.toStdString, hf]

theorem toStdString_one {f : UInt16} (hf : f = 0 ∨ f = 0xffff) :
    (low f 0 1).toStdString fmt = some [':', ':', '1'] := by
  simp [low, Ipv6Addr.toStdString, hf]

theorem toStdString_low {f g h : UInt16} (hf : f = 0 ∨ f = 0xffff)
    (hgh : ¬ (g = 0 ∧ (h = 0 ∨ h = 1))) :
    (low f g h).toStdString fmt = some (quadPrefix f ++ (quad g h).toStdString fmt) := by
  have h0 : ¬ (g = 0 ∧ h = 0) := fun h0 => hgh ⟨h0.1, Or.inl h0.2⟩
  have h1 : ¬ (g = 0 ∧ h = 1) := fun h1 => hgh ⟨h1.1, Or.inr h1.2⟩
  rcases hf with rfl | rfl <;>
    simp [low, Ipv6Addr.toStdString, h0, h1, quadPrefix, quad, Ipv4Addr.toStdString]

theorem quad_toIpv6Compatible (g h : UInt16) : (quad g h).toIpv6Compatible = low 0 g h := by
  rw [quad, toIpv6Compatible_ofOctets, leWord_bytes, leWord_bytes, low]

theorem quad_toIpv6Mapped (g h : UInt16) : (quad g h).toIpv6Mapped = low 0xffff g h := by
  rw [quad, toIpv6Mapped_ofOctets, leWord_bytes, leWord_bytes, low]

def readMixed (t : Text) : Option Ipv6Addr :=
  if quadPrefix 0xffff <+: t then
    (Ipv4Addr.fromString (t.drop 7)).map Ipv4Addr.toIpv6Mapped
  else if quadPrefix 0 <+: t then
    (Ipv4Addr.fromString (t.drop 2)).map Ipv4Addr.toIpv6Compatible
  else
    none

def readText (t : Text) : Option (List UInt16) :=
  if '.' ∈ t then (readMixed t).map segmentList else readAddress t

theorem exists_digit_quad (hf : fmt.Documented) (g h : UInt16) :
    ∃ c cs, (quad g h).toStdString fmt = c :: cs ∧ c.isDigit := by
  rw [quad, (toStdString_dottedQuad hf _ _ _ _).text]
  obtain ⟨c, cs, hcs⟩ := List.exists_cons_of_ne_nil
    (Nat.toDigits_ne_nil : Nat.toDigits 10 (highByte g).toNat ≠ [])
  have hdigits := (canonicalDecimal_toDigits (highByte g).toNat).digits
  rw [hcs] at hdigits ⊢
  exact ⟨c, _, rfl, hdigits c (by simp)⟩

theorem readMixed_quad (hf : fmt.Documented) {f : UInt16} (hf' : f = 0 ∨ f = 0xffff)
    (g h : UInt16) :
    readMixed (quadPrefix f ++ (quad g h).toStdString fmt) = some (low f g h) := by
  have hread := fromString_toStdString hf (quad g h)
  rcases hf' with rfl | rfl
  · -- a decimal digit follows the double colon
    have hdigit : ¬ quadPrefix 0xffff <+: quadPrefix 0 ++ (quad g h).toStdString fmt := by
      obtain ⟨c, cs, hcs, hc⟩ := exists_digit_quad hf g h
      have hne : 'f' ≠ c := by
        rintro rfl
        exact absurd hc (by decide)
      simp [quadPrefix, hcs, hne]
    rw [readMixed, if_neg hdigit, if_pos (List.prefix_append _ _),
      List.drop_left' (by decide), hread, Option.map_some, quad_toIpv6Compatible]
  · rw [readMixed, if_pos (List.prefix_append _ _), List.drop_left' (by decide), hread,
      Option.map_some, quad_toIpv6Mapped]

theorem not_mem_groups (hf : fmt.Documented) {c : Char} (hc : hexDigit? c = none)
    (hsep : c ≠ ':') (segments : List UInt16) : c ∉ groups fmt segments := by
  have hword : ∀ w : UInt16, c ∉ fmt.hex w.toNat := by
    intro w
    rw [hf.hex_eq]
    exact not_mem_toDigits_hex hc _
  cases segments with
  | nil => simp [groups]
  | cons w ws => simp [groups, join_cons, hword, hsep]

theorem not_mem_hexText (hf : fmt.Documented) {c : Char} (hc : hexDigit? c = none)
    (hsep : c ≠ ':') (segments : List UInt16) (zeroSpanAt zeroSpanLen : ℕ) :
    c ∉ hexText fmt segments zeroSpanAt zeroSpanLen := by
  unfold hexText
  split <;> simp [not_mem_groups hf hc hsep, hsep]

theorem denoted_of_not_convertible {x : Ipv6Addr} (h : ¬ Ipv4Convertible x) : denoted x = x := by
  rw [ipv4Convertible_iff] at h
  have hne : ∀ h', ¬ (x == low 0xffff 0 h') = true := by
    intro h' heq
    exact h ⟨0xffff, 0, h', Or.inr rfl, eq_of_beq heq⟩
  rw [denoted, if_neg (hne 0), if_neg (hne 1)]

theorem denoted_low_special {f : UInt16} (hf : f = 0 ∨ f = 0xffff) {h : UInt16}
    (hh : h = 0 ∨ h = 1) : denoted (low f 0 h) = low 0 0 h := by
  rcases hf with rfl | rfl <;> rcases hh with rfl | rfl <;> simp [denoted, low_inj]

theorem denoted_low {f g h : UInt16} (hgh : ¬ (g = 0 ∧ (h = 0 ∨ h = 1))) :
    denoted (low f g h) = low f g h := by
  have hne : ∀ h', (h' = 0 ∨ h' = 1) → ¬ (low f g h == low 0xffff 0 h') = true := by
    intro h' hh' heq
    obtain ⟨_, rfl, rfl⟩ := low_inj.mp (eq_of_beq heq)
    exact hgh ⟨rfl, hh'⟩
  rw [denoted, if_neg (hne 0 (Or.inl rfl)), if_neg (hne 1 (Or.inr rfl))]

/-- Every address has a text, and the text determines the address it denotes. -/
theorem readText_toStdString (hf : fmt.Documented) (x : Ipv6Addr) :
    ∃ t, x.toStdString fmt = some t ∧ readText t = some (segmentList (denoted x)) := by
  by_cases hconv : Ipv4Convertible x
  · obtain ⟨f, g, h, hfx, rfl⟩ := (ipv4Convertible_iff x).mp hconv
    by_cases hgh : g = 0 ∧ (h = 0 ∨ h = 1)
    · obtain ⟨rfl, hh⟩ := hgh
      rw [denoted_low_special hfx hh]
      rcases hh with rfl | rfl
      · exact ⟨_, toStdString_zero hfx, by decide⟩
      · exact ⟨_, toStdString_one hfx, by decide⟩
    · refine ⟨_, toStdString_low hfx hgh, ?_⟩
      have hperiod : '.' ∈ quadPrefix f ++ (quad g h).toStdString fmt := by
        simp [Ipv4Addr.toStdString, formatQuad]
      rw [readText, if_pos hperiod, readMixed_quad hf hfx, denoted_low hgh, Option.map_some]
  · obtain ⟨zeroSpanAt, zeroSpanLen, hbest, htext⟩ := toStdString_eq_hexText fmt hconv
    refine ⟨_, htext, ?_⟩
    rw [readText, if_neg (not_mem_hexText hf (by decide) (by decide) _ _ _),
      readAddress_hexText hf (length_segmentList x) hbest.run, denoted_of_not_convertible hconv]

theorem toStdString_denoted (x : Ipv6Addr) :
    (denoted x).toStdString fmt = x.toStdString fmt := by
  unfold denoted
  split
  · next h => rw [eq_of_beq h, toStdString_zero (Or.inl rfl), toStdString_zero (Or.inr rfl)]
  · split
    · next h => rw [eq_of_beq h, toStdString_one (Or.inl rfl), toStdString_one (Or.inr rfl)]
    · rfl

theorem toStdString_eq_iff (hf : fmt.Documented) (x y : Ipv6Addr) :
    x.toStdString fmt = y.toStdString fmt ↔ denoted x = denoted y := by
  constructor
  · intro h
    obtain ⟨t, ht, hread⟩ := readText_toStdString hf x
    obtain ⟨u, hu, hread'⟩ := readText_toStdString hf y
    rw [ht, hu, Option.some.injEq] at h
    rw [h, hread', Option.some.injEq] at hread
    exact segmentList_injective hread.symm
  · intro h
    rw [← toStdString_denoted x, h, toStdString_denoted]

theorem denoted_cases (x : Ipv6Addr) :
    denoted x = x ∧ x ≠ low 0xffff 0 0 ∧ x ≠ low 0xffff 0 1 ∨
    ∃ h, (h = 0 ∨ h = 1) ∧ x = low 0xffff 0 h ∧ denoted x = low 0 0 h := by
  unfold denoted
  split
  · next h => exact Or.inr ⟨0, Or.inl rfl, eq_of_beq h, rfl⟩
  · next h0 =>
    split
    · next h => exact Or.inr ⟨1, Or.inr rfl, eq_of_beq h, rfl⟩
    · next h1 =>
      rw [beq_iff_eq] at h0 h1
      exact Or.inl ⟨rfl, h0, h1⟩

theorem denoted_eq_iff (x y : Ipv6Addr) : denoted x = denoted y ↔ x = y ∨ Shadowed x y := by
  constructor
  · intro heq
    rcases denoted_cases x with ⟨hx, _, _⟩ | ⟨h, hh, hx, hdx⟩ <;>
      rcases denoted_cases y with ⟨hy, _, _⟩ | ⟨h', hh', hy, hdy⟩
    · rw [hx, hy] at heq
      exact Or.inl heq
    · rw [hx, hdy] at heq
      exact Or.inr ⟨h', hh', Or.inl ⟨heq, hy⟩⟩
    · rw [hdx, hy] at heq
      exact Or.inr ⟨h, hh, Or.inr ⟨hx, heq.symm⟩⟩
    · rw [hdx, hdy, low_inj] at heq
      rw [hx, hy, heq.2.2]
      exact Or.inl rfl
  · rintro (rfl | ⟨h, hh, ⟨rfl, rfl⟩ | ⟨rfl, rfl⟩⟩)
    · rfl
    · rw [denoted_low_special (Or.inl rfl) hh, denoted_low_special (Or.inr rfl) hh]
    · rw [denoted_low_special (Or.inl rfl) hh, denoted_low_special (Or.inr rfl) hh]

theorem Shadowed.ne {x y : Ipv6Addr} (h : Shadowed x y) : x ≠ y := by
  rcases h with ⟨h, _, ⟨rfl, rfl⟩ | ⟨rfl, rfl⟩⟩ <;> simp [low_inj]

/-- Equal texts mean equal addresses, except between a shadowed mapped address and the
compatible address it is printed as. -/
theorem lossless_iff_not_shadowed (hf : fmt.Documented) (x y : Ipv6Addr) :
    (x.toStdString fmt = y.toStdString fmt → (x == y) = true) ↔ ¬ Shadowed x y := by
  rw [toStdString_eq_iff hf, denoted_eq_iff, beq_iff_eq]
  constructor
  · intro h hsh
    exact hsh.ne (h (Or.inr hsh))
  · rintro hsh (rfl | h)
    · rfl
    · exact (hsh h).elim

theorem lossless_iff_not_shadowed_standard :
    ((low 0 0 2).toStdString Fmt.standard = (low 0xffff 0 2).toStdString Fmt.standard →
      (low 0 0 2 == low 0xffff 0 2) = true) ↔ ¬ Shadowed (low 0 0 2) (low 0xffff 0 2) :=
  lossless_iff_not_shadowed Fmt.standard_documented _ _

theorem shadowed_text_collision :
    ¬ ∀ x y : Ipv6Addr, x.toStdString Fmt.standard = y.toStdString Fmt.standard →
      (x == y) = true := by
  intro h
  have heq := h (.ofSegments 0 0 0 0 0 0 0 0) (.ofSegments 0 0 0 0 0 0xffff 0 0) (by decide)
  exact absurd heq (by decide)

end NetIpv6Lossless
