import Laio.LibExecutions
import Laio.NetIpv4Addr

/-! # The scanner of `Ipv4Addr::from` on machine integers

The loop with its own types: entries of 16 bits, counters of 8 bits, arithmetic that wraps,
and an array that may be indexed past its end. The invariant keeps it clear of all of that,
so the loop computes what it computes on numbers. -/
namespace NetIpv4Scanner

open LibExecutions NetIpv6Addr NetIpv4Addr

structure Locals where
  buf : Vector UInt16 4
  pos : UInt8
  octet : UInt8

inductive Pass where
  | next (s : Locals)
  | nullopt
  | outOfBounds

/-- `buf[octet] * 10 + (*i - '0')` -/
def Locals.value (s : Locals) (c : Char) (h : s.octet.toNat < 4) : UInt16 :=
  s.buf[s.octet.toNat] * 10 + UInt16.ofNat (c.toNat - '0'.toNat)

/-- The write of the value, the test of what was written, and `++pos`. -/
def Locals.digit (s : Locals) (c : Char) : Pass :=
  if h : s.octet.toNat < 4 then
    let buf := s.buf.set s.octet.toNat (s.value c h)
    if 255 < buf[s.octet.toNat] then .nullopt else .next ⟨buf, s.pos + 1, s.octet⟩
  else
    .outOfBounds

def Locals.pass (s : Locals) (c : Char) : Pass :=
  if ('0' ≤ c ∧ c ≤ '9') ∧ s.pos < 3 ∧ s.octet < 4 then
    s.digit c
  else if c = '.' ∧ 0 < s.pos ∧ s.pos < 4 ∧ s.octet < 3 then
    .next { s with pos := 0, octet := s.octet + 1 }
  else
    .nullopt

def start : Locals := ⟨#v[0, 0, 0, 0], 0, 0⟩

def Step (s : Locals) (c : Char) (t : Locals) : Prop := s.pass c = .next t

def Pass.andThen (p : Pass) (f : Locals → Pass) : Pass :=
  match p with
  | .next s => f s
  | .nullopt => .nullopt
  | .outOfBounds => .outOfBounds

def scan (t : Text) : Pass := t.foldl (fun p c => p.andThen (·.pass c)) (.next start)

/-- `Ipv4Addr::from`, where `none` stands for the undefined access. -/
def fromString (ipv4Address : Text) : Option (Option Ipv4Addr) :=
  match scan ipv4Address with
  | .next s => some (some (.ofOctets s.buf[0].toUInt8 s.buf[1].toUInt8 s.buf[2].toUInt8
      s.buf[3].toUInt8))
  | .nullopt => some none
  | .outOfBounds => none

def digitsSincePeriod (t : Text) : ℕ := (t.reverse.takeWhile (· ≠ '.')).countP Char.isDigit

/-- The invariant at the head of the loop, after the characters of `t`. -/
structure Invariant (t : Text) (s : Locals) : Prop where
  octet_le : s.octet.toNat ≤ 3
  pos_le : s.pos.toNat ≤ 3
  buf_le : ∀ i : Fin 4, s.buf[i].toNat ≤ 255
  buf_zero : ∀ i : Fin 4, s.octet.toNat < i.val → s.buf[i] = 0
  pos_eq : s.pos.toNat = digitsSincePeriod t

/-- What a pass over `c` does in a state is free of undefined and of wrapping operations. -/
structure Safe (s : Locals) (c : Char) : Prop where
  in_bounds : s.octet.toNat < 4 ∧ s.pass c ≠ .outOfBounds
  value_fits : ∀ h : s.octet.toNat < 4, '0' ≤ c ∧ c ≤ '9' →
    s.buf[s.octet.toNat].toNat * 10 + (c.toNat - '0'.toNat) < 2 ^ 16
  pos_fits : s.pos.toNat + 1 < 2 ^ 8
  octet_fits : s.octet.toNat + 1 < 2 ^ 8

theorem digitsSincePeriod_concat (t : Text) (c : Char) : digitsSincePeriod (t ++ [c]) =
    if c = '.' then 0 else digitsSincePeriod t + if c.isDigit then 1 else 0 := by
  by_cases h : c = '.'
  · simp [digitsSincePeriod, h]
  · simp [digitsSincePeriod, h, List.countP_cons]

theorem invariant_start : Invariant [] start := by
  constructor <;> simp [start, digitsSincePeriod, Fin.forall_fin_succ]

theorem digit_le {c : Char} (h : '0' ≤ c ∧ c ≤ '9') :
    c.toNat - '0'.toNat ≤ 9 ∧ c.isDigit = true := by
  have hc : 48 ≤ c.toNat ∧ c.toNat ≤ 57 := by
    simpa [Char.le_def, UInt32.le_iff_toNat_le] using h
  constructor
  · change c.toNat - 48 ≤ 9
    omega
  · simpa [Char.isDigit, Char.le_def] using h

variable {t : Text} {s s' : Locals} {c : Char}

theorem digit_eq (s : Locals) (c : Char) (h : s.octet.toNat < 4) :
    s.digit c = if 255 < s.value c h then .nullopt
      else .next ⟨s.buf.set s.octet.toNat (s.value c h), s.pos + 1, s.octet⟩ := by
  rw [Locals.digit, dif_pos h]
  simp only [Vector.getElem_set_self]

theorem step_cases (h : Step s c s') :
    (∃ hlt : s.octet.toNat < 4, ('0' ≤ c ∧ c ≤ '9') ∧ s.pos.toNat < 3 ∧
      (s.value c hlt).toNat ≤ 255 ∧
      s' = ⟨s.buf.set s.octet.toNat (s.value c hlt), s.pos + 1, s.octet⟩) ∨
    (c = '.' ∧ s.octet.toNat < 3 ∧ s' = { s with pos := 0, octet := s.octet + 1 }) := by
  rw [Step, Locals.pass] at h
  split at h
  · next hcond =>
    obtain ⟨hdigit, hpos, hoct⟩ := hcond
    have hlt : s.octet.toNat < 4 := UInt8.lt_iff_toNat_lt.mp hoct
    rw [digit_eq s c hlt] at h
    split at h
    · cases h
    · next hval =>
      refine Or.inl ⟨hlt, hdigit, UInt8.lt_iff_toNat_lt.mp hpos, ?_, (Pass.next.inj h).symm⟩
      exact Nat.not_lt.mp fun hgt => hval (UInt16.lt_iff_toNat_lt.mpr hgt)
  · split at h
    · next hcond =>
      obtain ⟨hc, _, _, hoct⟩ := hcond
      exact Or.inr ⟨hc, UInt8.lt_iff_toNat_lt.mp hoct, (Pass.next.inj h).symm⟩
    · cases h

theorem succ_toNat {n : UInt8} (h : n.toNat < 3) : (n + 1).toNat = n.toNat + 1 := by
  rw [UInt8.toNat_add, UInt8.toNat_one, Nat.mod_eq_of_lt (by omega)]

theorem Invariant.step (h : Invariant t s) (hs : Step s c s') : Invariant (t ++ [c]) s' := by
  rcases step_cases hs with ⟨hlt, hc, hpos, hval, rfl⟩ | ⟨rfl, hoct, rfl⟩
  · constructor
    · exact h.octet_le
    · rw [succ_toNat hpos]
      exact hpos
    · intro i
      by_cases hi : s.octet.toNat = i.val
      · simpa [hi] using hval
      · simpa [hi] using h.buf_le i
    · intro i hi
      have hne : s.octet.toNat ≠ i.val := Nat.ne_of_lt hi
      simpa [hne] using h.buf_zero i hi
    · have hperiod : c ≠ '.' := by
        rintro rfl
        exact absurd hc (by decide)
      rw [succ_toNat hpos, h.pos_eq, digitsSincePeriod_concat, if_neg hperiod,
        if_pos (digit_le hc).2]
  · have hsucc : (s.octet + 1).toNat = s.octet.toNat + 1 := succ_toNat hoct
    constructor
    · change (s.octet + 1).toNat ≤ 3
      rw [hsucc]
      exact hoct
    · exact Nat.zero_le _
    · exact h.buf_le
    · intro i hi
      refine h.buf_zero i ?_
      change (s.octet + 1).toNat < i.val at hi
      omega
    · rw [digitsSincePeriod_concat, if_pos rfl]
      rfl

theorem invariant_of_execution (h : Execution Step start t s) : Invariant t s := by
  induction h with
  | refl => exact invariant_start
  | tail _ hs ih => exact ih.step hs

theorem value_fits (h : Invariant t s) (hlt : s.octet.toNat < 4) (hc : '0' ≤ c ∧ c ≤ '9') :
    s.buf[s.octet.toNat].toNat * 10 + (c.toNat - '0'.toNat) < 2 ^ 16 := by
  have hbuf : s.buf[s.octet.toNat].toNat ≤ 255 := h.buf_le ⟨s.octet.toNat, hlt⟩
  have hdigit := (digit_le hc).1
  omega

theorem value_toNat (h : Invariant t s) (hlt : s.octet.toNat < 4) (hc : '0' ≤ c ∧ c ≤ '9') :
    (s.value c hlt).toNat = s.buf[s.octet.toNat].toNat * 10 + (c.toNat - '0'.toNat) := by
  have hfits := value_fits h hlt hc
  rw [Locals.value, UInt16.toNat_add, UInt16.toNat_mul, UInt16.toNat_ofNat']
  simp only [UInt16.reduceToNat]
  omega

def Locals.toScanner (s : Locals) : Scanner :=
  ⟨s.buf.map UInt16.toNat, s.pos.toNat, s.octet.toNat⟩

def Pass.toScanner : Pass → Option (Option Scanner)
  | .next s => some (some s.toScanner)
  | .nullopt => some none
  | .outOfBounds => none

theorem digit_refines (h : Invariant t s)
    (hs : ('0' ≤ c ∧ c ≤ '9') ∧ s.toScanner.pos < 3 ∧ s.toScanner.octet < 4) :
    (s.digit c).toScanner = some (s.toScanner.step c) := by
  have hoct : s.octet.toNat < 4 := hs.2.2
  have hget : s.toScanner.buf.get ⟨s.toScanner.octet, hs.2.2⟩ = s.buf[s.octet.toNat].toNat :=
    Vector.getElem_map _ _
  have hset : s.toScanner.buf.set s.toScanner.octet (s.value c hoct).toNat hs.2.2 =
      (s.buf.set s.octet.toNat (s.value c hoct)).map UInt16.toNat := Vector.map_set.symm
  have hlarge : 255 < s.value c hoct ↔ (s.value c hoct).toNat > 255 := UInt16.lt_iff_toNat_lt
  rw [digit_eq s c hoct, s.toScanner.step_digit_eq c hs, hget]
  simp only [← value_toNat h hoct hs.1]
  by_cases hval : 255 < s.value c hoct
  · rw [if_pos hval, if_pos (hlarge.mp hval)]
    rfl
  · have hpos := succ_toNat hs.2.1
    rw [if_neg hval, if_neg (fun hgt => hval (hlarge.mpr hgt)), hset]
    simp [Pass.toScanner, Locals.toScanner, hpos]

theorem pass_refines (h : Invariant t s) (c : Char) :
    (s.pass c).toScanner = some (s.toScanner.step c) := by
  have hdigit : (('0' ≤ c ∧ c ≤ '9') ∧ s.pos < 3 ∧ s.octet < 4) ↔
      ('0' ≤ c ∧ c ≤ '9') ∧ s.toScanner.pos < 3 ∧ s.toScanner.octet < 4 := by
    rw [UInt8.lt_iff_toNat_lt, UInt8.lt_iff_toNat_lt]
    rfl
  have hperiod : (c = '.' ∧ 0 < s.pos ∧ s.pos < 4 ∧ s.octet < 3) ↔
      c = '.' ∧ s.toScanner.pos > 0 ∧ s.toScanner.pos < 4 ∧ s.toScanner.octet < 3 := by
    rw [UInt8.lt_iff_toNat_lt, UInt8.lt_iff_toNat_lt, UInt8.lt_iff_toNat_lt]
    rfl
  by_cases hd : ('0' ≤ c ∧ c ≤ '9') ∧ s.pos < 3 ∧ s.octet < 4
  · rw [Locals.pass, if_pos hd]
    exact digit_refines h (hdigit.mp hd)
  · rw [Locals.pass, if_neg hd, Scanner.step, dif_neg (fun h => hd (hdigit.mpr h))]
    by_cases hp : c = '.' ∧ 0 < s.pos ∧ s.pos < 4 ∧ s.octet < 3
    · have hoct := succ_toNat (UInt8.lt_iff_toNat_lt.mp hp.2.2.2)
      rw [if_pos hp, if_pos (hperiod.mp hp)]
      simp [Pass.toScanner, Locals.toScanner, hoct]
    · rw [if_neg hp, if_neg (fun h => hp (hperiod.mpr h))]
      rfl

theorem safe (h : Invariant t s) (c : Char) : Safe s c := by
  have hpos := h.pos_le
  have hoct := h.octet_le
  refine ⟨⟨Nat.lt_succ_of_le hoct, ?_⟩, fun hlt hc => value_fits h hlt hc, by omega, by omega⟩
  intro hout
  have hpass := pass_refines h c
  rw [hout] at hpass
  cases hpass

theorem toScanner_start : start.toScanner = Scanner.start := by
  simp [start, Locals.toScanner, Scanner.start]

theorem scan_concat (t : Text) (c : Char) : scan (t ++ [c]) = (scan t).andThen (·.pass c) := by
  rw [scan, List.foldl_append]
  rfl

/-- Induction over the characters: the scan is an execution while it goes on, and it ends as
the loop on numbers does. -/
theorem scan_refines (t : Text) : (∀ s, scan t = .next s → Execution Step start t s) ∧
    (scan t).toScanner = some (t.foldlM Scanner.step Scanner.start) := by
  induction t using List.reverseRecOn with
  | nil =>
    refine ⟨?_, congrArg (fun s => some (some s)) toScanner_start⟩
    intro s hs
    obtain rfl := Pass.next.inj hs
    exact .refl start
  | append_singleton t c ih =>
    obtain ⟨hexec, hscan⟩ := ih
    rw [scan_concat, List.foldlM_append]
    generalize t.foldlM Scanner.step Scanner.start = r at hscan
    cases hp : scan t with
    | next s =>
      have hs := hexec s hp
      rw [hp] at hscan
      obtain rfl := Option.some.inj hscan
      refine ⟨fun s' hs' => .tail hs hs', ?_⟩
      have hpass := pass_refines (invariant_of_execution hs) c
      simpa [Pass.andThen] using hpass
    | nullopt =>
      rw [hp] at hscan
      obtain rfl := Option.some.inj hscan
      exact ⟨nofun, rfl⟩
    | outOfBounds =>
      rw [hp] at hscan
      cases hscan

theorem cast_toNat (h : Invariant t s) (i : Fin 4) : s.buf[i].toUInt8.toNat = s.buf[i].toNat := by
  have := h.buf_le i
  rw [UInt16.toNat_toUInt8, Nat.mod_eq_of_lt (by omega)]

theorem octet_toScanner (s : Locals) (i : Fin 4) :
    UInt8.ofNat (s.toScanner.buf.get i) = s.buf[i].toUInt8 := by
  have hget : s.toScanner.buf.get i = s.buf[i].toNat := Vector.getElem_map _ _
  rw [hget, UInt8.ofNat_uInt16ToNat]

theorem fromString_eq (t : Text) : fromString t = some (Ipv4Addr.fromString t) := by
  have hscan := (scan_refines t).2
  rw [fromString, Ipv4Addr.fromString]
  generalize t.foldlM Scanner.step Scanner.start = r at hscan
  cases hp : scan t with
  | next s =>
    rw [hp] at hscan
    obtain rfl := Option.some.inj hscan
    simp only [Option.bind_eq_bind, Option.bind_some, octet_toScanner]
    rfl
  | nullopt =>
    rw [hp] at hscan
    obtain rfl := Option.some.inj hscan
    rfl
  | outOfBounds =>
    rw [hp] at hscan
    cases hscan

/-- At every iteration on every input the invariant holds, whatever character comes next
the pass over it is safe, and the final casts keep the values; so the machine integers
compute what the numbers do. -/
theorem scanner_safe :
    (∀ t s, Execution Step start t s → Invariant t s ∧ (∀ c, Safe s c) ∧
      ∀ i : Fin 4, s.buf[i].toUInt8.toNat = s.buf[i].toNat) ∧
    ∀ t, fromString t = some (Ipv4Addr.fromString t) := by
  refine ⟨?_, fromString_eq⟩
  intro t s h
  have hinv := invariant_of_execution h
  exact ⟨hinv, safe hinv, cast_toNat hinv⟩

end NetIpv4Scanner
