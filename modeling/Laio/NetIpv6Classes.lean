import Laio.LibMasks
import Laio.NetIpNumbers

/-! # IPv6 address classes

The predicates test masks on the little-endian words. Each one is a documented block of
128-bit numbers. -/
namespace NetIpv6Classes

open LibWords LibMasks LibPositional NetIpv6Addr NetIpNumbers

variable {addr : Ipv6Addr} {a b c d e f g h : UInt16}

theorem byteSwap_eq_iff (v w : UInt16) : byteSwap v = w ↔ v = byteSwap w := by
  rw [← byteSwap_injective.eq_iff, byteSwap_byteSwap]

theorem inBlock_first_iff {r : ℕ} (hr : r ≤ 16) (base : UInt16) :
    InBlock 128 (value (.ofSegments base 0 0 0 0 0 0 0)) r (value (.ofSegments a b c d e f g h)) ↔
      a.toNat / 2 ^ (16 - r) = base.toNat / 2 ^ (16 - r) := by
  have hblock := inBlock_segments_iff hr [] a [b, c, d, e, f, g, h] [] base
    [0, 0, 0, 0, 0, 0, 0] rfl rfl rfl (Nat.zero_add r).symm
  rw [value_ofSegments, value_ofSegments]
  refine hblock.trans ?_
  simp

theorem value_div_first : value (.ofSegments a b c d e f g h) / 2 ^ 112 = a.toNat := by
  have hsplit := bigEndian_append_div (b := 65536) (by decide) [a.toNat]
    (segment_toNat_lt [b, c, d, e, f, g, h])
  rw [value_ofSegments, show 2 ^ 112 = 65536 ^ 7 by decide]
  exact hsplit.trans (bigEndian_singleton _ _)

/-- A mask that keeps the leading `r` bits of the first segment tests for a block. -/
theorem maskedFirst_iff (r : ℕ) {mask base net : UInt16} (hr : r ≤ 16)
    (hmask : (byteSwap mask).toNat = (2 ^ r - 1) * 2 ^ (16 - r)) (hbase : byteSwap base = net)
    (hnet : net.toNat / 2 ^ (16 - r) * 2 ^ (16 - r) = net.toNat) :
    addr.maskedFirst mask base = true ↔
      InBlock 128 (value (.ofSegments net 0 0 0 0 0 0 0)) r (value addr) := by
  obtain ⟨a, b, c, d, e, f, g, h, rfl⟩ := addr.exists_ofSegments
  rw [inBlock_first_iff hr, Ipv6Addr.maskedFirst, Ipv6Addr.word_ofSegments, beq_iff_eq]
  change byteSwap a &&& mask = base ↔ _
  rw [byteSwap_and_eq_iff, hbase]
  exact word_prefix_iff hr hmask hnet a

theorem isMulticast_iff : addr.isMulticast = true ↔
    InBlock 128 (value (.ofSegments 0xff00 0 0 0 0 0 0 0)) 8 (value addr) :=
  maskedFirst_iff 8 (by decide) (by decide) (by decide) (by decide)

theorem isUniqueLocal_iff : addr.isUniqueLocal = true ↔
    InBlock 128 (value (.ofSegments 0xfc00 0 0 0 0 0 0 0)) 7 (value addr) :=
  maskedFirst_iff 7 (by decide) (by decide) (by decide) (by decide)

theorem isUnicastLinkLocal_iff : addr.isUnicastLinkLocal = true ↔
    InBlock 128 (value (.ofSegments 0xfe80 0 0 0 0 0 0 0)) 10 (value addr) :=
  maskedFirst_iff 10 (by decide) (by decide) (by decide) (by decide)

theorem isUnicastSiteLocal_iff : addr.isUnicastSiteLocal = true ↔
    InBlock 128 (value (.ofSegments 0xfec0 0 0 0 0 0 0 0)) 10 (value addr) :=
  maskedFirst_iff 10 (by decide) (by decide) (by decide) (by decide)

/-- The scope is the low half of the second byte. -/
theorem multicastScope_mask (base : UInt16) (v : ℕ) (hbase : (byteSwap base).toNat = v) :
    addr.rawIpv6Address.word 0 &&& 0x0f00 = base ↔ value addr / 2 ^ 112 % 16 = v := by
  obtain ⟨a, b, c, d, e, f, g, h, rfl⟩ := addr.exists_ofSegments
  have hfield := word_and_eq_iff (byteSwap 0x0f00) (byteSwap base) 4 0 v (by decide)
    (hbase.trans (Nat.mul_one v).symm) a
  rw [Nat.pow_zero, Nat.div_one] at hfield
  rw [Ipv6Addr.word_ofSegments, value_div_first]
  exact (byteSwap_and_eq_iff a 0x0f00 base).trans hfield

theorem multicastScope_of_isMulticast (h : addr.isMulticast = true) : addr.multicastScope =
    let scope := value addr / 2 ^ 112 % 16
    if scope = 1 then some .interfaceLocal
    else if scope = 2 then some .linkLocal
    else if scope = 3 then some .realmLocal
    else if scope = 4 then some .adminLocal
    else if scope = 5 then some .siteLocal
    else if scope = 8 then some .organizationLocal
    else if scope = 14 then some .global
    else none := by
  simp only [Ipv6Addr.multicastScope, if_pos h, multicastScope_mask 0x0100 1 (by decide),
    multicastScope_mask 0x0200 2 (by decide), multicastScope_mask 0x0300 3 (by decide),
    multicastScope_mask 0x0400 4 (by decide), multicastScope_mask 0x0500 5 (by decide),
    multicastScope_mask 0x0800 8 (by decide), multicastScope_mask 0x0e00 14 (by decide)]

theorem isUnspecified_iff : addr.isUnspecified = true ↔ value addr = 0 := by
  have hzero : addr.isUnspecified = (addr == Ipv6Addr.ofSegments 0 0 0 0 0 0 0 0) := rfl
  rw [hzero, beq_iff_eq, ← value_injective.eq_iff]
  rfl

theorem isLoopback_iff : addr.isLoopback = true ↔ value addr = 1 := by
  have hone : addr.isLoopback = (addr == Ipv6Addr.ofSegments 0 0 0 0 0 0 0 1) := by
    change _ = (List.finRange 8).all _
    rw [List.finRange_succ_last, List.all_append, List.all_map, List.all_cons, List.all_nil,
      Bool.and_true]
    rfl
  rw [hone, beq_iff_eq, ← value_injective.eq_iff]
  rfl

theorem isUnicastLinkLocalStrict_iff : addr.isUnicastLinkLocalStrict = true ↔
    InBlock 128 (value (.ofSegments 0xfe80 0 0 0 0 0 0 0)) 64 (value addr) := by
  obtain ⟨a, b, c, d, e, f, g, h, rfl⟩ := addr.exists_ofSegments
  have hblock := inBlock_whole_iff [a, b, c] d [e, f, g, h] [0xfe80, 0, 0] 0 [0, 0, 0, 0]
    rfl rfl rfl rfl
  have hswap : byteSwap 0x80fe = 0xfe80 ∧ byteSwap 0 = 0 := by decide
  rw [value_ofSegments, value_ofSegments]
  refine Iff.trans ?_ hblock.symm
  simp only [Ipv6Addr.isUnicastLinkLocalStrict, Ipv6Addr.word_ofSegments, Bool.and_eq_true,
    beq_iff_eq, byteSwap_eq_iff, hswap]
  change ((a = _ ∧ b = _) ∧ c = _) ∧ d = _ ↔ _
  simp [and_assoc]

theorem isDocumentation_iff : addr.isDocumentation = true ↔
    InBlock 128 (value (.ofSegments 0x2001 0xdb8 0 0 0 0 0 0)) 32 (value addr) := by
  obtain ⟨a, b, c, d, e, f, g, h, rfl⟩ := addr.exists_ofSegments
  have hblock := inBlock_whole_iff [a] b [c, d, e, f, g, h] [0x2001] 0xdb8 [0, 0, 0, 0, 0, 0]
    rfl rfl rfl rfl
  have hswap : byteSwap 0x0120 = 0x2001 ∧ byteSwap 0xb80d = 0xdb8 := by decide
  rw [value_ofSegments, value_ofSegments]
  refine Iff.trans ?_ hblock.symm
  simp only [Ipv6Addr.isDocumentation, Ipv6Addr.word_ofSegments, Bool.and_eq_true, beq_iff_eq,
    byteSwap_eq_iff, hswap]
  change a = _ ∧ b = _ ↔ _
  simp

theorem multicastScope_isSome_iff : addr.multicastScope.isSome ↔
    InBlock 128 (value (.ofSegments 0xff00 0 0 0 0 0 0 0)) 8 (value addr) ∧
      value addr / 2 ^ 112 % 16 ∈ [1, 2, 3, 4, 5, 8, 14] := by
  rw [← isMulticast_iff]
  by_cases h : addr.isMulticast = true
  · rw [multicastScope_of_isMulticast h]
    grind
  · simp [Ipv6Addr.multicastScope, h]

theorem multicastScope_eq_global_iff : addr.multicastScope = some .global ↔
    InBlock 128 (value (.ofSegments 0xff00 0 0 0 0 0 0 0)) 8 (value addr) ∧
      value addr / 2 ^ 112 % 16 = 14 := by
  rw [← isMulticast_iff]
  by_cases h : addr.isMulticast = true
  · rw [multicastScope_of_isMulticast h]
    grind
  · simp [Ipv6Addr.multicastScope, h]

/-- Every class is the block its comment names, and the global addresses are those of the
global multicast scope and the unicast ones outside five blocks. -/
theorem ipv6_classes_are_blocks (addr : Ipv6Addr) :
    let A := value addr
    let multicast := InBlock 128 (value (.ofSegments 0xff00 0 0 0 0 0 0 0)) 8 A
    let scope := A / 2 ^ 112 % 16
    let uniqueLocal := InBlock 128 (value (.ofSegments 0xfc00 0 0 0 0 0 0 0)) 7 A
    let linkLocal := InBlock 128 (value (.ofSegments 0xfe80 0 0 0 0 0 0 0)) 10 A
    let documentation := InBlock 128 (value (.ofSegments 0x2001 0xdb8 0 0 0 0 0 0)) 32 A
    (addr.isMulticast = true ↔ multicast) ∧
    (addr.isUniqueLocal = true ↔ uniqueLocal) ∧
    (addr.isUnicastLinkLocal = true ↔ linkLocal) ∧
    (addr.isUnicastLinkLocalStrict = true ↔
      InBlock 128 (value (.ofSegments 0xfe80 0 0 0 0 0 0 0)) 64 A) ∧
    (addr.isUnicastSiteLocal = true ↔
      InBlock 128 (value (.ofSegments 0xfec0 0 0 0 0 0 0 0)) 10 A) ∧
    (addr.isDocumentation = true ↔ documentation) ∧
    (addr.isLoopback = true ↔ A = 1) ∧
    (addr.isUnspecified = true ↔ A = 0) ∧
    (addr.multicastScope.isSome ↔ multicast ∧ scope ∈ [1, 2, 3, 4, 5, 8, 14]) ∧
    (addr.isGlobal = true ↔ multicast ∧ scope = 14 ∨
      ¬multicast ∧ A ≠ 0 ∧ A ≠ 1 ∧ ¬linkLocal ∧ ¬uniqueLocal ∧ ¬documentation) := by
  intro A multicast scope uniqueLocal linkLocal documentation
  refine ⟨isMulticast_iff, isUniqueLocal_iff, isUnicastLinkLocal_iff,
    isUnicastLinkLocalStrict_iff, isUnicastSiteLocal_iff, isDocumentation_iff, isLoopback_iff,
    isUnspecified_iff, multicastScope_isSome_iff, ?_⟩
  have hscope : addr.multicastScope = some .global ↔ multicast ∧ scope = 14 :=
    multicastScope_eq_global_iff
  have hunicast : addr.isUnicastGlobal = true ↔
      ¬multicast ∧ A ≠ 0 ∧ A ≠ 1 ∧ ¬linkLocal ∧ ¬uniqueLocal ∧ ¬documentation := by
    simp only [Ipv6Addr.isUnicastGlobal, Bool.and_eq_true, Bool.not_eq_true', ← Bool.not_eq_true,
      isMulticast_iff, isLoopback_iff, isUnicastLinkLocal_iff, isUniqueLocal_iff,
      isUnspecified_iff, isDocumentation_iff]
    tauto
  rw [Ipv6Addr.isGlobal, Bool.or_eq_true, beq_iff_eq, hscope, hunicast]

end NetIpv6Classes
