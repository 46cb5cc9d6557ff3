import Mathlib.Data.Nat.Digits.Defs
import Mathlib.Data.List.Basic
import Mathlib.Data.List.Induction

/-! # Positional notation

Digit sequences are read most significant digit first. `Nat.toDigits` is the standard
printer; a reader is a partial valuation of characters, so one lemma covers every base. -/
namespace LibPositional

def bigEndian (b : ℕ) (ds : List ℕ) : ℕ := Nat.ofDigits b ds.reverse

@[simp] theorem bigEndian_nil (b : ℕ) : bigEndian b [] = 0 := rfl

theorem bigEndian_append (b : ℕ) (xs ys : List ℕ) :
    bigEndian b (xs ++ ys) = bigEndian b xs * b ^ ys.length + bigEndian b ys := by
  rw [bigEndian, List.reverse_append, Nat.ofDigits_append, List.length_reverse]
  unfold bigEndian
  rw [Nat.mul_comm, Nat.add_comm]

@[simp] theorem bigEndian_singleton (b d : ℕ) : bigEndian b [d] = d := by
  simp [bigEndian]

theorem bigEndian_concat (b : ℕ) (xs : List ℕ) (d : ℕ) :
    bigEndian b (xs ++ [d]) = bigEndian b xs * b + d := by
  simp [bigEndian_append]

theorem bigEndian_lt {b : ℕ} (hb : 1 < b) {ds : List ℕ} (h : ∀ d ∈ ds, d < b) :
    bigEndian b ds < b ^ ds.length := by
  have hr := Nat.ofDigits_lt_base_pow_length (b := b) (l := ds.reverse) hb
    (fun d hd => h d (List.mem_reverse.mp hd))
  simpa [bigEndian] using hr

theorem bigEndian_inj {b : ℕ} (hb : 1 < b) {xs ys : List ℕ} (hlen : xs.length = ys.length)
    (hx : ∀ d ∈ xs, d < b) (hy : ∀ d ∈ ys, d < b) (h : bigEndian b xs = bigEndian b ys) :
    xs = ys := by
  have hlen' : xs.reverse.length = ys.reverse.length := by simpa using hlen
  have hr := Nat.ofDigits_inj_of_len_eq hb hlen' (fun d hd => hx d (List.mem_reverse.mp hd))
    (fun d hd => hy d (List.mem_reverse.mp hd)) h
  exact List.reverse_injective hr

theorem bigEndian_append_div {b : ℕ} (hb : 1 < b) (xs : List ℕ) {ys : List ℕ}
    (hy : ∀ d ∈ ys, d < b) : bigEndian b (xs ++ ys) / b ^ ys.length = bigEndian b xs := by
  have hpos : 0 < b ^ ys.length := Nat.pow_pos (by omega)
  rw [bigEndian_append, Nat.mul_comm, Nat.mul_add_div hpos,
    Nat.div_eq_of_lt (bigEndian_lt hb hy), Nat.add_zero]

theorem bigEndian_cons (b d : ℕ) (ds : List ℕ) :
    bigEndian b (d :: ds) = d * b ^ ds.length + bigEndian b ds := by
  simpa using bigEndian_append b [d] ds

theorem bigEndian_lastDigits (b n k : ℕ) :
    bigEndian b ((List.range k).reverse.map fun i => n / b ^ i % b) = n % b ^ k := by
  induction k with
  | zero => simp [Nat.mod_one]
  | succ k ih =>
    rw [List.range_succ, List.reverse_concat, List.map_cons, bigEndian_cons, ih, List.length_map,
      List.length_reverse, List.length_range, Nat.mod_pow_succ, Nat.add_comm, Nat.mul_comm]

theorem ofDigits_pairs (b : ℕ) (ps : List (ℕ × ℕ)) :
    Nat.ofDigits (b * b) (ps.map fun p => p.1 + b * p.2) =
      Nat.ofDigits b (ps.flatMap fun p => [p.1, p.2]) := by
  induction ps with
  | nil => rfl
  | cons p ps ih =>
    rw [List.map_cons, List.flatMap_cons, List.cons_append, List.singleton_append,
      Nat.ofDigits_cons, Nat.ofDigits_cons, Nat.ofDigits_cons, ih, Nat.mul_add, Nat.mul_assoc,
      Nat.add_assoc]

theorem bigEndian_pairs (b : ℕ) (ps : List (ℕ × ℕ)) :
    bigEndian (b * b) (ps.map fun p => p.1 * b + p.2) =
      bigEndian b (ps.flatMap fun p => [p.1, p.2]) := by
  induction ps using List.reverseRecOn with
  | nil => rfl
  | append_singleton ps p ih =>
    have htwo : (ps ++ [p]).flatMap (fun p => [p.1, p.2]) =
        ps.flatMap (fun p => [p.1, p.2]) ++ [p.1] ++ [p.2] := by
      simp
    rw [List.map_append, List.map_singleton, bigEndian_concat, htwo, bigEndian_concat,
      bigEndian_concat, ih, Nat.add_mul, Nat.mul_assoc, Nat.add_assoc]

/-- For digit sequences of one length the order of the numbers is the lexicographic one. -/
theorem bigEndian_lt_iff {b : ℕ} (hb : 1 < b) {xs ys : List ℕ} (hlen : xs.length = ys.length)
    (hx : ∀ d ∈ xs, d < b) (hy : ∀ d ∈ ys, d < b) :
    bigEndian b xs < bigEndian b ys ↔ xs < ys := by
  induction xs generalizing ys with
  | nil =>
    obtain rfl := List.length_eq_zero_iff.mp hlen.symm
    simp
  | cons x xs ih =>
    obtain ⟨y, ys, rfl⟩ := List.exists_cons_of_length_eq_add_one hlen.symm
    have hlen' : xs.length = ys.length := by simpa using hlen
    have hx' := bigEndian_lt hb fun d hd => hx d (List.mem_cons_of_mem x hd)
    have hy' := bigEndian_lt hb fun d hd => hy d (List.mem_cons_of_mem y hd)
    -- a step of the leading digit outweighs whatever the other digits contribute
    have hstep : ∀ m n : ℕ, m < n → m * b ^ ys.length + b ^ ys.length ≤ n * b ^ ys.length := by
      intro m n hmn
      calc m * b ^ ys.length + b ^ ys.length = (m + 1) * b ^ ys.length :=
          (Nat.succ_mul m _).symm
        _ ≤ n * b ^ ys.length := Nat.mul_le_mul_right _ hmn
    rw [hlen'] at hx'
    rw [bigEndian_cons, bigEndian_cons, hlen', List.cons_lt_cons_iff,
      ← ih hlen' (fun d hd => hx d (List.mem_cons_of_mem x hd))
        (fun d hd => hy d (List.mem_cons_of_mem y hd))]
    rcases Nat.lt_trichotomy x y with h | rfl | h
    · have := hstep x y h
      omega
    · simp
    · have := hstep y x h
      omega

/-- The block `base/len` of `w`-bit numbers: those that share their leading `len` bits
with `base`. -/
def InBlock (w base len v : ℕ) : Prop := v / 2 ^ (w - len) = base / 2 ^ (w - len)

instance (w base len v : ℕ) : Decidable (InBlock w base len v) :=
  inferInstanceAs (Decidable (_ = _))

theorem mul_add_inj {B m n d e : ℕ} (hd : d < B) (he : e < B) :
    m * B + d = n * B + e ↔ m = n ∧ d = e := by
  constructor
  · intro h
    have hmod := congrArg (· % B) h
    simp only [Nat.mul_add_mod', Nat.mod_eq_of_lt hd, Nat.mod_eq_of_lt he] at hmod
    subst hmod
    exact ⟨Nat.eq_of_mul_eq_mul_right (by omega) (Nat.add_right_cancel h), rfl⟩
  · rintro ⟨rfl, rfl⟩
    rfl

theorem bigEndian_div_prefix {k r : ℕ} (hk : 0 < k) (hr : r ≤ k) (xs ys : List ℕ) (d : ℕ)
    (hy : ∀ n ∈ ys, n < 2 ^ k) :
    bigEndian (2 ^ k) (xs ++ d :: ys) / 2 ^ (k * ys.length + (k - r)) =
      bigEndian (2 ^ k) xs * 2 ^ r + d / 2 ^ (k - r) := by
  have hone : 1 < 2 ^ k := Nat.one_lt_two_pow hk.ne'
  have hsplit : bigEndian (2 ^ k) (xs ++ d :: ys) / (2 ^ k) ^ ys.length =
      bigEndian (2 ^ k) xs * 2 ^ k + d := by
    rw [List.append_cons, bigEndian_append_div hone (xs ++ [d]) hy, bigEndian_concat]
  have hpow : 2 ^ k = 2 ^ (k - r) * 2 ^ r := by
    rw [← Nat.pow_add, Nat.sub_add_cancel hr]
  calc bigEndian (2 ^ k) (xs ++ d :: ys) / 2 ^ (k * ys.length + (k - r))
      = bigEndian (2 ^ k) (xs ++ d :: ys) / (2 ^ k) ^ ys.length / 2 ^ (k - r) := by
        rw [Nat.pow_add, Nat.pow_mul, Nat.div_div_eq_div_mul]
    _ = (2 ^ (k - r) * (bigEndian (2 ^ k) xs * 2 ^ r) + d) / 2 ^ (k - r) := by
        rw [hsplit, Nat.mul_left_comm, ← hpow]
    _ = bigEndian (2 ^ k) xs * 2 ^ r + d / 2 ^ (k - r) :=
        Nat.mul_add_div (Nat.two_pow_pos _) _ _

/-- A block whose prefix ends `r` bits into a digit fixes the digits before it and the
leading bits of that one. -/
theorem inBlock_digits_iff {k r w len : ℕ} (hk : 0 < k) (hr : r ≤ k) {xs xs' ys ys' : List ℕ}
    {d d' : ℕ} (hlen : xs.length = xs'.length) (hlen' : ys.length = ys'.length)
    (hx : ∀ n ∈ xs ++ d :: ys, n < 2 ^ k) (hx' : ∀ n ∈ xs' ++ d' :: ys', n < 2 ^ k)
    (hw : w = k * xs.length + k + k * ys.length) (hl : len = k * xs.length + r) :
    InBlock w (bigEndian (2 ^ k) (xs' ++ d' :: ys')) len (bigEndian (2 ^ k) (xs ++ d :: ys)) ↔
      xs = xs' ∧ d / 2 ^ (k - r) = d' / 2 ^ (k - r) := by
  have hone : 1 < 2 ^ k := Nat.one_lt_two_pow hk.ne'
  have hd : ∀ n < 2 ^ k, n / 2 ^ (k - r) < 2 ^ r := by
    intro n hn
    rw [Nat.div_lt_iff_lt_mul (Nat.two_pow_pos _), ← Nat.pow_add, Nat.add_sub_cancel' hr]
    exact hn
  have hsub : w - len = k * ys.length + (k - r) := by omega
  have hsub' : w - len = k * ys'.length + (k - r) := by rw [hsub, hlen']
  simp only [List.forall_mem_append, List.forall_mem_cons] at hx hx'
  rw [InBlock]
  nth_rewrite 1 [hsub]
  rw [hsub', bigEndian_div_prefix hk hr xs ys d hx.2.2,
    bigEndian_div_prefix hk hr xs' ys' d' hx'.2.2, mul_add_inj (hd d hx.2.1) (hd d' hx'.2.1)]
  constructor
  · rintro ⟨h, hbits⟩
    exact ⟨bigEndian_inj hone hlen hx.1 hx'.1 h, hbits⟩
  · rintro ⟨rfl, hbits⟩
    exact ⟨rfl, hbits⟩

theorem digits_lt {α : Type*} {f : α → ℕ} {b : ℕ} (hlt : ∀ x, f x < b) (xs : List α) :
    ∀ n ∈ xs.map f, n < b := by
  intro n hn
  obtain ⟨x, _, rfl⟩ := List.mem_map.mp hn
  exact hlt x

theorem inBlock_map_iff {α : Type*} {f : α → ℕ} {k r w len : ℕ} (hf : Function.Injective f)
    (hlt : ∀ x, f x < 2 ^ k) (hk : 0 < k) (hr : r ≤ k) (xs : List α) (x : α) (ys xs' : List α)
    (x' : α) (ys' : List α) (hlen : xs.length = xs'.length) (hlen' : ys.length = ys'.length)
    (hw : w = k * xs.length + k + k * ys.length) (hl : len = k * xs.length + r) :
    InBlock w (bigEndian (2 ^ k) ((xs' ++ x' :: ys').map f)) len
        (bigEndian (2 ^ k) ((xs ++ x :: ys).map f)) ↔
      xs = xs' ∧ f x / 2 ^ (k - r) = f x' / 2 ^ (k - r) := by
  have hx := digits_lt hlt (xs ++ x :: ys)
  have hx' := digits_lt hlt (xs' ++ x' :: ys')
  rw [List.map_append, List.map_cons] at hx hx' ⊢
  rw [List.map_append, List.map_cons, ← (List.map_injective_iff.mpr hf).eq_iff]
  exact inBlock_digits_iff hk hr (by simpa using hlen) (by simpa using hlen') hx hx'
    (by simpa using hw) (by simpa using hl)

/-- Reading a numeral: every character must be a digit of the valuation. -/
def readDigits (digit? : Char → Option ℕ) (b : ℕ) (cs : List Char) : Option ℕ :=
  (cs.mapM digit?).map (bigEndian b)

theorem readDigits_concat (digit? : Char → Option ℕ) (b : ℕ) (cs : List Char) (c : Char) :
    readDigits digit? b (cs ++ [c]) =
      (readDigits digit? b cs).bind fun n => (digit? c).map fun d => n * b + d := by
  unfold readDigits
  rw [List.mapM_append]
  cases cs.mapM digit? with
  | none => rfl
  | some ds => cases hd : digit? c <;> simp [hd, bigEndian_concat]

theorem readDigits_lt {digit? : Char → Option ℕ} {b : ℕ}
    (hdigit : ∀ c d, digit? c = some d → d < b) {cs : List Char} {n : ℕ}
    (h : readDigits digit? b cs = some n) : n < b ^ cs.length := by
  induction cs using List.reverseRecOn generalizing n with
  | nil =>
    obtain rfl : 0 = n := by simpa [readDigits] using h
    simp
  | append_singleton cs c ih =>
    rw [readDigits_concat, Option.bind_eq_some_iff] at h
    obtain ⟨m, hm, hn⟩ := h
    obtain ⟨d, hd, rfl⟩ := Option.map_eq_some_iff.mp hn
    calc m * b + d < m * b + b := Nat.add_lt_add_left (hdigit c d hd) _
      _ = (m + 1) * b := (Nat.succ_mul m b).symm
      _ ≤ b ^ cs.length * b := Nat.mul_le_mul_right b (ih hm)
      _ = b ^ (cs ++ [c]).length := by rw [List.length_append, List.length_singleton, pow_succ]

theorem readDigits_toDigits {digit? : Char → Option ℕ} {b : ℕ} (hb : 1 < b)
    (hdigit : ∀ d < b, digit? (Nat.digitChar d) = some d) (n : ℕ) :
    readDigits digit? b (Nat.toDigits b n) = some n := by
  induction n using Nat.strong_induction_on with
  | _ n ih =>
    rw [Nat.toDigits_eq_if hb]
    split
    · next hn => simp [readDigits, hdigit n hn]
    · next hn =>
      have hdiv : n / b < n := Nat.div_lt_self (by omega) hb
      rw [readDigits_concat, ih _ hdiv, hdigit _ (Nat.mod_lt n (by omega))]
      simpa using Nat.div_add_mod' n b

theorem mem_toDigits {b : ℕ} (hb : 1 < b) {n : ℕ} {c : Char} (h : c ∈ Nat.toDigits b n) :
    ∃ d < b, c = Nat.digitChar d := by
  induction n using Nat.strong_induction_on with
  | _ n ih =>
    rw [Nat.toDigits_eq_if hb] at h
    split at h
    · next hn => exact ⟨n, hn, by simpa using h⟩
    · next hn =>
      rcases List.mem_append.mp h with h | h
      · exact ih _ (Nat.div_lt_self (by omega) hb) h
      · exact ⟨n % b, Nat.mod_lt n (by omega), by simpa using h⟩

theorem head_toDigits_ne_zero {b : ℕ} (hb : 1 < b) {n : ℕ} (hn : 0 < n) :
    (Nat.toDigits b n).head? ≠ some '0' := by
  induction n using Nat.strong_induction_on with
  | _ n ih =>
    rw [Nat.toDigits_eq_if hb]
    split
    · simp; omega
    · next hlt =>
      have hpos : 0 < n / b := Nat.div_pos (by omega) (by omega)
      rw [List.head?_append_of_ne_nil _ Nat.toDigits_ne_nil]
      exact ih _ (Nat.div_lt_self (by omega) hb) hpos

/-- A decimal numeral with no superfluous leading zero. -/
structure CanonicalDecimal (g : List Char) : Prop where
  nonempty : g ≠ []
  digits : ∀ c ∈ g, c.isDigit
  no_leading_zero : g.head? = some '0' → g = ['0']

theorem digitChar_of_isDigit {c : Char} (h : c.isDigit) :
    c.toNat - 48 < 10 ∧ Nat.digitChar (c.toNat - 48) = c := by
  have hc : 48 ≤ c.toNat ∧ c.toNat ≤ 57 := by
    simpa [Char.isDigit, UInt32.le_iff_toNat_le] using h
  have hlt : c.toNat - 48 < 10 := by omega
  refine ⟨hlt, Char.toNat_inj.mp ?_⟩
  rw [Nat.toNat_digitChar_of_lt_ten hlt]
  omega

theorem canonicalDecimal_toDigits (n : ℕ) : CanonicalDecimal (Nat.toDigits 10 n) := by
  refine ⟨Nat.toDigits_ne_nil, fun c hc => Nat.isDigit_of_mem_toDigits (by decide) (by decide) hc,
    ?_⟩
  intro h
  rcases Nat.eq_zero_or_pos n with rfl | hn
  · rfl
  · exact (head_toDigits_ne_zero (by decide) hn h).elim

theorem ofDigitChars_concat (g : List Char) (c : Char) :
    Nat.ofDigitChars 10 (g ++ [c]) 0 = 10 * Nat.ofDigitChars 10 g 0 + (c.toNat - 48) := by
  simp [Nat.ofDigitChars_append, Nat.ofDigitChars_cons]

theorem ofDigitChars_pos {g : List Char} (hd : ∀ c ∈ g, c.isDigit) (hne : g ≠ [])
    (hh : g.head? ≠ some '0') : 0 < Nat.ofDigitChars 10 g 0 := by
  induction g using List.reverseRecOn with
  | nil => exact (hne rfl).elim
  | append_singleton g c ih =>
    rw [ofDigitChars_concat]
    by_cases hg : g = []
    · subst hg
      obtain ⟨_, hc⟩ := digitChar_of_isDigit (hd c (by simp))
      have hz : c.toNat - 48 ≠ 0 := by
        intro hz
        rw [hz] at hc
        exact hh (by simp [← hc])
      omega
    · rw [List.head?_append_of_ne_nil _ hg] at hh
      have := ih (fun c hc => hd c (List.mem_append_left _ hc)) hg hh
      omega

theorem toDigits_ofDigitChars {g : List Char} (h : CanonicalDecimal g) :
    Nat.toDigits 10 (Nat.ofDigitChars 10 g 0) = g := by
  obtain ⟨hne, hd, hz⟩ := h
  induction g using List.reverseRecOn with
  | nil => exact (hne rfl).elim
  | append_singleton g c ih =>
    obtain ⟨hlt, hc⟩ := digitChar_of_isDigit (hd c (by simp))
    have hdg : ∀ c ∈ g, c.isDigit := fun c hc => hd c (List.mem_append_left _ hc)
    rw [ofDigitChars_concat]
    by_cases hg : g = []
    · subst hg
      simp [Nat.toDigits_of_lt_base hlt, hc]
    · have hh : g.head? ≠ some '0' := by
        intro h0
        have hone := congrArg List.length (hz (by rwa [List.head?_append_of_ne_nil _ hg]))
        have := List.length_pos_iff.mpr hg
        rw [List.length_append, List.length_singleton, List.length_singleton] at hone
        omega
      have hpos := ofDigitChars_pos hdg hg hh
      rw [Nat.toDigits_of_base_le (by decide) (by omega),
        show (10 * Nat.ofDigitChars 10 g 0 + (c.toNat - 48)) / 10 =
          Nat.ofDigitChars 10 g 0 by omega,
        show (10 * Nat.ofDigitChars 10 g 0 + (c.toNat - 48)) % 10 = c.toNat - 48 by omega,
        ih hg hdg (fun h0 => (hh h0).elim), hc]

end LibPositional
