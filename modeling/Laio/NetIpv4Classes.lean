import Laio.LibMasks
import Laio.NetIpNumbers

/-! # IPv4 address classes

The predicates test octets, masks on an octet, or the little-endian word with its constants
byte-reversed. Each one is a union of documented blocks of 32-bit numbers. -/
namespace NetIpv4Classes

open LibWords LibMasks LibPositional NetIpv4Addr NetIpNumbers

inductive AddressClass where
  | unspecified
  | loopback
  | privateUse
  | linkLocal
  | broadcast
  | documentation
  | shared
  | ietfProtocolAssignment
  | reserved
  | benchmarking
  | multicast
  deriving DecidableEq, Repr

variable (addr : Ipv4Addr)

def belongs : AddressClass → Bool
  | .unspecified => addr.isUnspecified
  | .loopback => addr.isLoopback
  | .privateUse => addr.isPrivate
  | .linkLocal => addr.isLinkLocal
  | .broadcast => addr.isBroadcast
  | .documentation => addr.isDocumentation
  | .shared => addr.isShared
  | .ietfProtocolAssignment => addr.isIetfProtocolAssignment
  | .reserved => addr.isReserved
  | .benchmarking => addr.isBenchmarking
  | .multicast => addr.isMulticast

/-- The address lies in the block `a.b.c.d/len`. -/
def InNet (a b c d : UInt8) (len : ℕ) : Prop :=
  InBlock 32 (value4 (.ofOctets a b c d)) len (value4 addr)

/-- The blocks that the comments of the source name. -/
def Documented : AddressClass → Prop
  | .unspecified => InNet addr 0 0 0 0 32
  | .loopback => InNet addr 127 0 0 0 8
  | .privateUse => InNet addr 10 0 0 0 8 ∨ InNet addr 172 16 0 0 12 ∨ InNet addr 192 168 0 0 16
  | .linkLocal => InNet addr 169 254 0 0 16
  | .broadcast => InNet addr 255 255 255 255 32
  | .documentation =>
    InNet addr 192 0 2 0 24 ∨ InNet addr 198 51 100 0 24 ∨ InNet addr 203 0 113 0 24
  | .shared => InNet addr 100 64 0 0 10
  | .ietfProtocolAssignment => InNet addr 192 0 0 0 24
  | .reserved => InNet addr 240 0 0 0 4 ∧ ¬InNet addr 255 255 255 255 32
  | .benchmarking => InNet addr 198 18 0 0 15
  | .multicast => InNet addr 224 0 0 0 4

/-- Two exceptions, and what lies outside the blocks that are not routable. -/
def DocumentedGlobal : Prop :=
  InNet addr 192 0 0 9 32 ∨ InNet addr 192 0 0 10 32 ∨
    ¬InNet addr 0 0 0 0 8 ∧ ¬InNet addr 10 0 0 0 8 ∧ ¬InNet addr 100 64 0 0 10 ∧
    ¬InNet addr 127 0 0 0 8 ∧ ¬InNet addr 169 254 0 0 16 ∧ ¬InNet addr 172 16 0 0 12 ∧
    ¬InNet addr 192 0 0 0 24 ∧ ¬InNet addr 192 0 2 0 24 ∧ ¬InNet addr 192 168 0 0 16 ∧
    ¬InNet addr 198 18 0 0 15 ∧ ¬InNet addr 198 51 100 0 24 ∧ ¬InNet addr 203 0 113 0 24 ∧
    ¬InNet addr 240 0 0 0 4

variable {addr} {a b c d : UInt8}

theorem inNet_first_iff {r : ℕ} (hr : r ≤ 8) (a' : UInt8) :
    InNet (.ofOctets a b c d) a' 0 0 0 r ↔ a.toNat / 2 ^ (8 - r) = a'.toNat / 2 ^ (8 - r) := by
  have hblock := inBlock_octets_iff hr [] a [b, c, d] [] a' [0, 0, 0] rfl rfl rfl
    (Nat.zero_add r).symm
  refine hblock.trans ?_
  simp

theorem inNet_second_iff {r : ℕ} (hr : r ≤ 8) (a' b' : UInt8) :
    InNet (.ofOctets a b c d) a' b' 0 0 (8 + r) ↔
      a = a' ∧ b.toNat / 2 ^ (8 - r) = b'.toNat / 2 ^ (8 - r) := by
  have hblock := inBlock_octets_iff hr [a] b [c, d] [a'] b' [0, 0] rfl rfl rfl rfl
  refine hblock.trans ?_
  simp

theorem inNet_third_iff (a' b' c' : UInt8) :
    InNet (.ofOctets a b c d) a' b' c' 0 24 ↔ a = a' ∧ b = b' ∧ c = c' := by
  have hblock := inBlock_octets_iff le_rfl [a, b] c [d] [a', b'] c' [0] rfl rfl rfl rfl
  refine hblock.trans ?_
  simp [UInt8.toNat_inj, and_assoc]

theorem inNet_host_iff (a' b' c' d' : UInt8) :
    InNet (.ofOctets a b c d) a' b' c' d' 32 ↔ a = a' ∧ b = b' ∧ c = c' ∧ d = d' := by
  have hblock := inBlock_octets_iff le_rfl [a, b, c] d [] [a', b', c'] d' [] rfl rfl rfl rfl
  refine hblock.trans ?_
  simp [UInt8.toNat_inj, and_assoc]

theorem sAddr_eq_iff (a' b' c' d' : UInt8) {w : UInt32} (hw : w = leDWord a' b' c' d') :
    addr.rawIpv4Address.sAddr = w ↔ InNet addr a' b' c' d' 32 := by
  obtain ⟨a, b, c, d, rfl⟩ := addr.exists_ofOctets
  rw [inNet_host_iff, hw]
  exact leDWord_inj

theorem sAddr_and_eq_iff (a' b' c' : UInt8) {w : UInt32} (hw : w = leDWord a' b' c' 0) :
    addr.rawIpv4Address.sAddr &&& 0x00ffffff = w ↔ InNet addr a' b' c' 0 24 := by
  obtain ⟨a, b, c, d, rfl⟩ := addr.exists_ofOctets
  have hmask : (0x00ffffff : UInt32) = leDWord 0xff 0xff 0xff 0 := by decide
  have hones : (0xff : UInt8) = -1 := by decide
  change leDWord a b c d &&& _ = w ↔ _
  rw [inNet_third_iff, hmask, leDWord_and, hw, leDWord_inj, hones, UInt8.and_neg_one,
    UInt8.and_neg_one, UInt8.and_neg_one, UInt8.and_zero]
  simp

theorem sB1_eq_iff (a' : UInt8) : addr.rawIpv4Address.sB1 = a' ↔ InNet addr a' 0 0 0 8 := by
  obtain ⟨a, b, c, d, rfl⟩ := addr.exists_ofOctets
  rw [inNet_first_iff le_rfl]
  change a = a' ↔ _
  simp [UInt8.toNat_inj]

theorem sB1_and_eq_iff (r : ℕ) {mask a' : UInt8} (hr : r ≤ 8)
    (hmask : mask.toNat = (2 ^ r - 1) * 2 ^ (8 - r))
    (hbase : a'.toNat / 2 ^ (8 - r) * 2 ^ (8 - r) = a'.toNat) :
    addr.rawIpv4Address.sB1 &&& mask = a' ↔ InNet addr a' 0 0 0 r := by
  obtain ⟨a, b, c, d, rfl⟩ := addr.exists_ofOctets
  rw [inNet_first_iff hr]
  exact byte_prefix_iff hr hmask hbase a

theorem sB2_and_eq_iff (r : ℕ) {mask a' b' : UInt8} (hr : r ≤ 8)
    (hmask : mask.toNat = (2 ^ r - 1) * 2 ^ (8 - r))
    (hbase : b'.toNat / 2 ^ (8 - r) * 2 ^ (8 - r) = b'.toNat) :
    addr.rawIpv4Address.sB1 = a' ∧ addr.rawIpv4Address.sB2 &&& mask = b' ↔
      InNet addr a' b' 0 0 (8 + r) := by
  obtain ⟨a, b, c, d, rfl⟩ := addr.exists_ofOctets
  rw [inNet_second_iff hr]
  exact and_congr_right' (byte_prefix_iff hr hmask hbase b)

theorem isUnspecified_iff : addr.isUnspecified = true ↔ Documented addr .unspecified := by
  rw [Ipv4Addr.isUnspecified, beq_iff_eq]
  exact sAddr_eq_iff 0 0 0 0 (by decide)

theorem isLoopback_iff : addr.isLoopback = true ↔ Documented addr .loopback := by
  rw [Ipv4Addr.isLoopback, beq_iff_eq]
  exact sB1_eq_iff 127

theorem isPrivate_iff : addr.isPrivate = true ↔ Documented addr .privateUse := by
  obtain ⟨a, b, c, d, rfl⟩ := addr.exists_ofOctets
  have h10 : InNet (.ofOctets a b c d) 10 0 0 0 8 ↔ a = 10 := (sB1_eq_iff 10).symm
  have h172 : InNet (.ofOctets a b c d) 172 16 0 0 12 ↔ a = 172 ∧ b.toNat / 16 = 1 :=
    inNet_second_iff (r := 4) (by decide) 172 16
  have h192 : InNet (.ofOctets a b c d) 192 168 0 0 16 ↔ a = 192 ∧ b.toNat / 1 = 168 :=
    inNet_second_iff le_rfl 192 168
  simp only [Ipv4Addr.isPrivate, Ipv4Addr.octets_ofOctets, Documented, h10, h172, h192]
  by_cases h : a = 10
  · simp [h]
  by_cases h' : a = 172
  · simp [h', UInt8.le_iff_toNat_le]
    omega
  · simp [h, h', ← UInt8.toNat_inj]

theorem isLinkLocal_iff : addr.isLinkLocal = true ↔ Documented addr .linkLocal := by
  obtain ⟨a, b, c, d, rfl⟩ := addr.exists_ofOctets
  have hnet : InNet (.ofOctets a b c d) 169 254 0 0 16 ↔ a = 169 ∧ b.toNat / 1 = 254 :=
    inNet_second_iff le_rfl 169 254
  rw [Documented, hnet]
  simp [Ipv4Addr.isLinkLocal, ← UInt8.toNat_inj]

theorem isBroadcast_iff : addr.isBroadcast = true ↔ Documented addr .broadcast := by
  rw [Ipv4Addr.isBroadcast, beq_iff_eq]
  exact sAddr_eq_iff 255 255 255 255 (by decide)

theorem isDocumentation_iff : addr.isDocumentation = true ↔ Documented addr .documentation := by
  rw [Documented, ← sAddr_and_eq_iff 192 0 2 (w := 0x000200c0) (by decide),
    ← sAddr_and_eq_iff 198 51 100 (w := 0x006433c6) (by decide),
    ← sAddr_and_eq_iff 203 0 113 (w := 0x007100cb) (by decide)]
  simp [Ipv4Addr.isDocumentation]

theorem isShared_iff : addr.isShared = true ↔ Documented addr .shared := by
  rw [Ipv4Addr.isShared, Bool.and_eq_true, beq_iff_eq, beq_iff_eq]
  exact sB2_and_eq_iff 2 (by decide) (by decide) (by decide)

theorem isIetfProtocolAssignment_iff :
    addr.isIetfProtocolAssignment = true ↔ Documented addr .ietfProtocolAssignment := by
  obtain ⟨a, b, c, d, rfl⟩ := addr.exists_ofOctets
  rw [Documented, inNet_third_iff]
  simp [Ipv4Addr.isIetfProtocolAssignment, and_assoc]

theorem isReserved_iff : addr.isReserved = true ↔ Documented addr .reserved := by
  have hbroadcast : addr.isBroadcast = true ↔ InNet addr 255 255 255 255 32 := isBroadcast_iff
  have hnet : addr.rawIpv4Address.sB1 &&& 240 = 240 ↔ InNet addr 240 0 0 0 4 :=
    sB1_and_eq_iff 4 (by decide) (by decide) (by decide)
  rw [Documented, ← hbroadcast, ← hnet]
  simp [Ipv4Addr.isReserved]

theorem isBenchmarking_iff : addr.isBenchmarking = true ↔ Documented addr .benchmarking := by
  rw [Ipv4Addr.isBenchmarking, Bool.and_eq_true, beq_iff_eq, beq_iff_eq]
  exact sB2_and_eq_iff 7 (by decide) (by decide) (by decide)

theorem isMulticast_iff : addr.isMulticast = true ↔ Documented addr .multicast := by
  obtain ⟨a, b, c, d, rfl⟩ := addr.exists_ofOctets
  have hnet : InNet (.ofOctets a b c d) 224 0 0 0 4 ↔ a.toNat / 16 = 14 :=
    inNet_first_iff (by decide) 224
  rw [Documented, hnet, Ipv4Addr.isMulticast]
  change (decide (224 ≤ a) && decide (a ≤ 239)) = true ↔ _
  simp [UInt8.le_iff_toNat_le]
  omega

theorem belongs_iff (addr : Ipv4Addr) (k : AddressClass) :
    belongs addr k = true ↔ Documented addr k := by
  cases k with
  | unspecified => exact isUnspecified_iff
  | loopback => exact isLoopback_iff
  | privateUse => exact isPrivate_iff
  | linkLocal => exact isLinkLocal_iff
  | broadcast => exact isBroadcast_iff
  | documentation => exact isDocumentation_iff
  | shared => exact isShared_iff
  | ietfProtocolAssignment => exact isIetfProtocolAssignment_iff
  | reserved => exact isReserved_iff
  | benchmarking => exact isBenchmarking_iff
  | multicast => exact isMulticast_iff

theorem classes_disjoint (addr : Ipv4Addr) (k l : AddressClass) (hk : Documented addr k)
    (hl : Documented addr l) : k = l := by
  cases k <;> cases l <;>
    simp only [Documented, InNet, InBlock, value4_ofOctets, UInt8.reduceToNat] at hk hl ⊢ <;> omega

theorem sAddr_exceptions_iff :
    addr.rawIpv4Address.sAddr = 0x090000c0 ∨ addr.rawIpv4Address.sAddr = 0x0a0000c0 ↔
      InNet addr 192 0 0 9 32 ∨ InNet addr 192 0 0 10 32 :=
  or_congr (sAddr_eq_iff 192 0 0 9 (by decide)) (sAddr_eq_iff 192 0 0 10 (by decide))

theorem reserved_of_broadcast (h : InNet addr 255 255 255 255 32) : InNet addr 240 0 0 0 4 := by
  simp only [InNet, InBlock, value4_ofOctets, UInt8.reduceToNat] at h ⊢
  omega

theorem isGlobal_iff : addr.isGlobal = true ↔ DocumentedGlobal addr := by
  rw [Ipv4Addr.isGlobal, DocumentedGlobal]
  split
  · next h =>
    rw [sAddr_exceptions_iff] at h
    exact iff_of_true rfl (or_assoc.mp (Or.inl h))
  · next h =>
    rw [sAddr_exceptions_iff] at h
    simp only [Bool.and_eq_true, Bool.not_eq_true', ← Bool.not_eq_true, isPrivate_iff,
      isLoopback_iff, isLinkLocal_iff, isBroadcast_iff, isDocumentation_iff, isShared_iff,
      isIetfProtocolAssignment_iff, isReserved_iff, isBenchmarking_iff, bne_iff_ne, ne_eq,
      sB1_eq_iff 0, Documented, not_or]
    constructor
    · rintro ⟨⟨⟨⟨⟨⟨⟨⟨⟨⟨h10, h172, h192⟩, hlo⟩, hll⟩, hbc⟩, hd₁, hd₂, hd₃⟩, hsh⟩, hpa⟩, hres⟩, hbm⟩,
        hzero⟩
      exact Or.inr (Or.inr ⟨hzero, h10, hsh, hlo, hll, h172, hpa, hd₁, h192, hbm, hd₂, hd₃,
        fun hr => hres ⟨hr, hbc⟩⟩)
    · rintro (h9 | h10 | ⟨hzero, h10, hsh, hlo, hll, h172, hpa, hd₁, h192, hbm, hd₂, hd₃, hres⟩)
      · exact (h (Or.inl h9)).elim
      · exact (h (Or.inr h10)).elim
      · exact ⟨⟨⟨⟨⟨⟨⟨⟨⟨⟨h10, h172, h192⟩, hlo⟩, hll⟩, fun hb => hres (reserved_of_broadcast hb)⟩,
          hd₁, hd₂, hd₃⟩, hsh⟩, hpa⟩, fun hr => hres hr.1⟩, hbm⟩, hzero⟩

/-- Every class is the union of the blocks its comment names, no two classes share an
address, and the global addresses are two exceptions and what lies outside thirteen blocks. -/
theorem ipv4_classes_are_blocks :
    (∀ addr k, belongs addr k = true ↔ Documented addr k) ∧
    (∀ addr k l, belongs addr k = true → belongs addr l = true → k = l) ∧
    ∀ addr, addr.isGlobal = true ↔ DocumentedGlobal addr := by
  refine ⟨belongs_iff, ?_, fun addr => isGlobal_iff⟩
  intro addr k l hk hl
  exact classes_disjoint addr k l ((belongs_iff addr k).mp hk) ((belongs_iff addr l).mp hl)

end NetIpv4Classes
