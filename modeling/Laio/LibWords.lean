import Mathlib.Data.Nat.Bitwise

/-! # Little-endian words and their bytes

Words are assembled from bytes by shift and or, as a union of byte and word arrays reads
them on a little-endian machine. Everything is reduced to one number equation per view. -/
namespace LibWords

def leWord (b₀ b₁ : UInt8) : UInt16 := b₁.toUInt16 <<< 8 ||| b₀.toUInt16

def leDWord (b₀ b₁ b₂ b₃ : UInt8) : UInt32 :=
  (leWord b₂ b₃).toUInt32 <<< 16 ||| (leWord b₀ b₁).toUInt32

/-- The two shifts are taken in a wider integer and the result is narrowed again. -/
def byteSwap (w : UInt16) : UInt16 := (w.toUInt32 <<< 8 ||| w.toUInt32 >>> 8).toUInt16

def highByte (w : UInt16) : UInt8 := (w >>> 8).toUInt8
def lowByte (w : UInt16) : UInt8 := w.toUInt8

theorem leWord_toNat (b₀ b₁ : UInt8) : (leWord b₀ b₁).toNat = b₁.toNat * 256 + b₀.toNat := by
  have h₀ := b₀.toNat_lt
  have h₁ := b₁.toNat_lt
  have hor := Nat.shiftLeft_add_eq_or_of_lt h₀ b₁.toNat
  rw [Nat.shiftLeft_eq] at hor
  simp only [leWord, UInt16.toNat_or, UInt16.toNat_shiftLeft, UInt8.toNat_toUInt16,
    Nat.shiftLeft_eq, UInt16.reduceToNat, Nat.reduceMod]
  rw [show b₁.toNat * 2 ^ 8 % 2 ^ 16 = b₁.toNat * 2 ^ 8 by omega, ← hor]

private theorem join_words_toNat (v w : UInt16) :
    (w.toUInt32 <<< 16 ||| v.toUInt32).toNat = w.toNat * 65536 + v.toNat := by
  have hv := v.toNat_lt
  have hw := w.toNat_lt
  have hor := Nat.shiftLeft_add_eq_or_of_lt hv w.toNat
  rw [Nat.shiftLeft_eq] at hor
  simp only [UInt32.toNat_or, UInt32.toNat_shiftLeft, UInt16.toNat_toUInt32,
    UInt32.reduceToNat, Nat.reduceMod]
  rw [Nat.shiftLeft_eq, show w.toNat * 2 ^ 16 % 2 ^ 32 = w.toNat * 2 ^ 16 by omega, ← hor]

theorem leDWord_toNat (b₀ b₁ b₂ b₃ : UInt8) : (leDWord b₀ b₁ b₂ b₃).toNat =
    ((b₃.toNat * 256 + b₂.toNat) * 256 + b₁.toNat) * 256 + b₀.toNat := by
  rw [leDWord, join_words_toNat, leWord_toNat, leWord_toNat]
  omega

@[simp] theorem highByte_toNat (w : UInt16) : (highByte w).toNat = w.toNat / 256 := by
  have := w.toNat_lt
  simp only [highByte, UInt16.toNat_toUInt8, UInt16.toNat_shiftRight, Nat.shiftRight_eq_div_pow,
    UInt16.reduceToNat, Nat.reduceMod]
  omega

@[simp] theorem lowByte_toNat (w : UInt16) : (lowByte w).toNat = w.toNat % 256 := by
  simp [lowByte]

theorem byteSwap_toNat (w : UInt16) :
    (byteSwap w).toNat = w.toNat % 256 * 256 + w.toNat / 256 := by
  have hw := w.toNat_lt
  have hlt : w.toNat / 2 ^ 8 < 2 ^ 8 := by omega
  have hor := Nat.shiftLeft_add_eq_or_of_lt hlt w.toNat
  rw [Nat.shiftLeft_eq] at hor
  simp only [byteSwap, UInt32.toNat_toUInt16, UInt32.toNat_or, UInt32.toNat_shiftLeft,
    UInt32.toNat_shiftRight, UInt16.toNat_toUInt32, Nat.shiftLeft_eq, Nat.shiftRight_eq_div_pow,
    UInt32.reduceToNat, Nat.reduceMod]
  rw [show w.toNat * 2 ^ 8 % 2 ^ 32 = w.toNat * 2 ^ 8 by omega, ← hor]
  omega

@[simp] theorem byteSwap_byteSwap (w : UInt16) : byteSwap (byteSwap w) = w := by
  apply UInt16.toNat_inj.mp
  have := w.toNat_lt
  rw [byteSwap_toNat, byteSwap_toNat]
  omega

theorem byteSwap_injective : Function.Injective byteSwap := by
  intro v w h
  rw [← byteSwap_byteSwap v, h, byteSwap_byteSwap]

theorem byteSwap_leWord (b₀ b₁ : UInt8) : byteSwap (leWord b₀ b₁) = leWord b₁ b₀ := by
  apply UInt16.toNat_inj.mp
  have h₀ := b₀.toNat_lt
  have h₁ := b₁.toNat_lt
  rw [byteSwap_toNat, leWord_toNat, leWord_toNat]
  omega

@[simp] theorem highByte_leWord (b₀ b₁ : UInt8) : highByte (leWord b₀ b₁) = b₁ := by
  apply UInt8.toNat_inj.mp
  have h₀ := b₀.toNat_lt
  rw [highByte_toNat, leWord_toNat]
  omega

@[simp] theorem lowByte_leWord (b₀ b₁ : UInt8) : lowByte (leWord b₀ b₁) = b₀ := by
  apply UInt8.toNat_inj.mp
  have h₀ := b₀.toNat_lt
  rw [lowByte_toNat, leWord_toNat]
  omega

@[simp] theorem leWord_bytes (w : UInt16) : leWord (lowByte w) (highByte w) = w := by
  apply UInt16.toNat_inj.mp
  rw [leWord_toNat, lowByte_toNat, highByte_toNat]
  omega

theorem leWord_inj {a₀ a₁ b₀ b₁ : UInt8} :
    leWord a₀ a₁ = leWord b₀ b₁ ↔ a₀ = b₀ ∧ a₁ = b₁ := by
  constructor
  · intro h
    exact ⟨by simpa using congrArg lowByte h, by simpa using congrArg highByte h⟩
  · rintro ⟨rfl, rfl⟩; rfl

theorem leDWord_inj {a₀ a₁ a₂ a₃ b₀ b₁ b₂ b₃ : UInt8} :
    leDWord a₀ a₁ a₂ a₃ = leDWord b₀ b₁ b₂ b₃ ↔ a₀ = b₀ ∧ a₁ = b₁ ∧ a₂ = b₂ ∧ a₃ = b₃ := by
  constructor
  · intro h
    have hn := congrArg UInt32.toNat h
    rw [leDWord_toNat, leDWord_toNat] at hn
    have := a₀.toNat_lt; have := a₁.toNat_lt; have := a₂.toNat_lt; have := a₃.toNat_lt
    have := b₀.toNat_lt; have := b₁.toNat_lt; have := b₂.toNat_lt; have := b₃.toNat_lt
    simp only [← UInt8.toNat_inj]
    omega
  · rintro ⟨rfl, rfl, rfl, rfl⟩; rfl

def lowHalf (n : UInt64) : UInt32 := n.toUInt32
def highHalf (n : UInt64) : UInt32 := (n >>> 32).toUInt32
def joinHalves (low high : UInt32) : UInt64 := low.toUInt64 ||| high.toUInt64 <<< 32

theorem joinHalves_toNat (low high : UInt32) :
    (joinHalves low high).toNat = high.toNat * 2 ^ 32 + low.toNat := by
  have hlow := low.toNat_lt
  have hhigh := high.toNat_lt
  have hor := Nat.shiftLeft_add_eq_or_of_lt hlow high.toNat
  rw [Nat.shiftLeft_eq] at hor
  simp only [joinHalves, UInt64.toNat_or, UInt64.toNat_shiftLeft, UInt32.toNat_toUInt64,
    Nat.shiftLeft_eq, UInt64.reduceToNat, Nat.reduceMod]
  rw [show high.toNat * 2 ^ 32 % 2 ^ 64 = high.toNat * 2 ^ 32 by omega, Nat.lor_comm, ← hor]

@[simp] theorem joinHalves_halves (n : UInt64) : joinHalves (lowHalf n) (highHalf n) = n := by
  apply UInt64.toNat_inj.mp
  have hn := n.toNat_lt
  rw [joinHalves_toNat]
  simp only [lowHalf, highHalf, UInt64.toNat_toUInt32, UInt64.toNat_shiftRight,
    Nat.shiftRight_eq_div_pow, UInt64.reduceToNat, Nat.reduceMod]
  omega

theorem joinHalves_inj {low high low' high' : UInt32} :
    joinHalves low high = joinHalves low' high' ↔ low = low' ∧ high = high' := by
  have hlow := low.toNat_lt
  have hlow' := low'.toNat_lt
  rw [← UInt64.toNat_inj, joinHalves_toNat, joinHalves_toNat, ← UInt32.toNat_inj,
    ← UInt32.toNat_inj]
  omega

end LibWords
