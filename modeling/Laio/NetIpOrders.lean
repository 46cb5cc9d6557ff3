import Laio.LibOrders
import Laio.NetIpEmbedding

/-! # The order of addresses

The IPv6 comparison is the order of the 128-bit numbers. The IPv4 one is an order of the
32-bit numbers only on octets that happen to be aligned. -/
namespace NetIpOrders

open LibOrders LibWords LibPositional NetIpv6Addr NetIpv4Addr NetIpNumbers NetIpEmbedding

theorem map_toNat_lt_iff (xs ys : List UInt16) :
    xs.map UInt16.toNat < ys.map UInt16.toNat ↔ xs < ys := by
  induction xs generalizing ys with
  | nil => cases ys <;> simp
  | cons x xs ih =>
    cases ys with
    | nil => simp
    | cons y ys =>
      rw [List.map_cons, List.map_cons, List.cons_lt_cons_iff, List.cons_lt_cons_iff, ih,
        UInt16.lt_iff_toNat_lt, UInt16.toNat_inj]

theorem ipv6_lt_iff (lhs rhs : Ipv6Addr) : lhs.lt rhs = true ↔ value lhs < value rhs := by
  obtain ⟨a, b, c, d, e, f, g, h, rfl⟩ := lhs.exists_ofSegments
  obtain ⟨a', b', c', d', e', f', g', h', rfl⟩ := rhs.exists_ofSegments
  have hlex := bigEndian_lt_iff (by decide) (by rfl)
    (segment_toNat_lt [a, b, c, d, e, f, g, h]) (segment_toNat_lt [a', b', c', d', e', f', g', h'])
  rw [map_toNat_lt_iff] at hlex
  simp only [Ipv6Addr.lt, Ipv6Addr.segments_ofSegments, decide_eq_true_eq, value_ofSegments]
  exact hlex.symm

theorem ipv6_readsOff : ReadsOff Set.univ (fun lhs rhs : Ipv6Addr => lhs.lt rhs = true)
    (fun lhs rhs => (lhs == rhs) = true) value := by
  constructor
  · intro lhs _ rhs _
    exact ipv6_lt_iff lhs rhs
  · intro lhs _ rhs _
    rw [beq_iff_eq, value_injective.eq_iff]

/-- Both IPv6 comparisons are those of the 128-bit numbers, so exactly one of less, equal
and greater holds, and less is transitive. -/
theorem ipv6_order_numeric :
    (∀ lhs rhs : Ipv6Addr, lhs.lt rhs = true ↔ value lhs < value rhs) ∧
    (∀ lhs rhs : Ipv6Addr, (lhs == rhs) = true ↔ value lhs = value rhs) ∧
    KeyOrder Set.univ (fun lhs rhs : Ipv6Addr => lhs.lt rhs = true)
      (fun lhs rhs => (lhs == rhs) = true) :=
  ⟨ipv6_lt_iff, fun lhs rhs => ipv6_readsOff.eq_iff lhs trivial rhs trivial,
    ipv6_readsOff.keyOrder⟩

theorem ipv4_eq_iff (lhs rhs : Ipv4Addr) : (lhs == rhs) = true ↔ value4 lhs = value4 rhs := by
  rw [beq_iff_eq, value4_injective.eq_iff]

theorem value_toIpv6Mapped (addr : Ipv4Addr) :
    value addr.toIpv6Mapped = 0xffff00000000 + value4 addr := by
  obtain ⟨a, b, c, d, rfl⟩ := addr.exists_ofOctets
  rw [toIpv6Mapped_ofOctets, value_ofSegments, value4_ofOctets]
  simp [bigEndian_cons, leWord_toNat]
  omega

/-- What the IPv4 comparison should be on the addresses in `S`. -/
structure NumericOrder (S : Set Ipv4Addr) : Prop where
  numeric : ∀ lhs ∈ S, ∀ rhs ∈ S, lhs.lt rhs = true ↔ value4 lhs < value4 rhs
  key : KeyOrder S (fun lhs rhs => lhs.lt rhs = true) fun lhs rhs => (lhs == rhs) = true
  mapped : ∀ lhs ∈ S, ∀ rhs ∈ S,
    lhs.lt rhs = true ↔ lhs.toIpv6Mapped.lt rhs.toIpv6Mapped = true

theorem ipv4_lt_irrefl (addr : Ipv4Addr) : ¬addr.lt addr = true := by
  obtain ⟨a, b, c, d, rfl⟩ := addr.exists_ofOctets
  simp [Ipv4Addr.lt]

theorem ipv4_lt_trans (x y z : Ipv4Addr) (hxy : x.lt y = true) (hyz : y.lt z = true) :
    x.lt z = true := by
  obtain ⟨a, b, c, d, rfl⟩ := x.exists_ofOctets
  obtain ⟨a', b', c', d', rfl⟩ := y.exists_ofOctets
  obtain ⟨a'', b'', c'', d'', rfl⟩ := z.exists_ofOctets
  simp only [Ipv4Addr.lt, Ipv4Addr.octets_ofOctets, Bool.and_eq_true, decide_eq_true_eq,
    UInt8.lt_iff_toNat_lt, UInt8.le_iff_toNat_le] at hxy hyz ⊢
  omega

/-- No octet decreases, the last one increases, and the test that the source makes on the
first octet, against the second one, holds too. -/
def OctetsAligned (lhs rhs : Ipv4Addr) : Prop :=
  let (a, b, c, d) := lhs.octets
  let (a', b', c', d') := rhs.octets
  a ≤ a' ∧ b ≤ b' ∧ c ≤ c' ∧ d < d' ∧ a ≤ b'

theorem value4_lt_iff (a b c d a' b' c' d' : UInt8) :
    value4 (.ofOctets a b c d) < value4 (.ofOctets a' b' c' d') ↔
      a < a' ∨ a = a' ∧ (b < b' ∨ b = b' ∧ (c < c' ∨ c = c' ∧ d < d')) := by
  refine (bigEndian_lt_iff (by decide) (by rfl) (octet_toNat_lt [a, b, c, d])
    (octet_toNat_lt [a', b', c', d'])).trans ?_
  simp [List.cons_lt_cons_iff, UInt8.lt_iff_toNat_lt, UInt8.toNat_inj]

theorem octetsAligned_iff (lhs rhs : Ipv4Addr) :
    OctetsAligned lhs rhs ↔ lhs.lt rhs = true ∧ value4 lhs < value4 rhs := by
  obtain ⟨a, b, c, d, rfl⟩ := lhs.exists_ofOctets
  obtain ⟨a', b', c', d', rfl⟩ := rhs.exists_ofOctets
  simp only [value4_lt_iff, Ipv4Addr.lt, OctetsAligned, Ipv4Addr.octets_ofOctets,
    Bool.and_eq_true, decide_eq_true_eq, UInt8.lt_iff_toNat_lt, UInt8.le_iff_toNat_le,
    ← UInt8.toNat_inj]
  omega

/-- The comparison is that of the numbers exactly if of any two different addresses, in one
order or the other, the octets are aligned. -/
theorem ipv4_numeric_order_iff (S : Set Ipv4Addr) :
    NumericOrder S ↔ ∀ lhs ∈ S, ∀ rhs ∈ S, lhs ≠ rhs →
      OctetsAligned lhs rhs ∨ OctetsAligned rhs lhs := by
  constructor
  · intro h lhs hl rhs hr hne
    rw [octetsAligned_iff, octetsAligned_iff, h.numeric lhs hl rhs hr, h.numeric rhs hr lhs hl,
      and_self, and_self]
    exact Nat.lt_or_gt_of_ne (value4_injective.ne hne)
  · intro h
    have hnum : ∀ lhs ∈ S, ∀ rhs ∈ S, lhs.lt rhs = true ↔ value4 lhs < value4 rhs := by
      intro lhs hl rhs hr
      rcases eq_or_ne lhs rhs with rfl | hne
      · exact iff_of_false (ipv4_lt_irrefl lhs) (Nat.lt_irrefl _)
      rcases h lhs hl rhs hr hne with haligned | haligned
      · obtain ⟨hlt, hvalue⟩ := (octetsAligned_iff lhs rhs).mp haligned
        exact iff_of_true hlt hvalue
      · obtain ⟨hlt, hvalue⟩ := (octetsAligned_iff rhs lhs).mp haligned
        refine iff_of_false (fun hlt' => ?_) (Nat.lt_asymm hvalue)
        exact ipv4_lt_irrefl lhs (ipv4_lt_trans lhs rhs lhs hlt' hlt)
    refine ⟨hnum, ReadsOff.keyOrder ⟨hnum, fun lhs _ rhs _ => ipv4_eq_iff lhs rhs⟩, ?_⟩
    intro lhs hl rhs hr
    rw [ipv6_lt_iff, value_toIpv6Mapped, value_toIpv6Mapped, hnum lhs hl rhs hr]
    omega

theorem neighbours_incomparable :
    ¬NumericOrder {.ofOctets 10 0 0 0, .ofOctets 10 0 0 1} := by
  intro h
  have hlt := (h.numeric (.ofOctets 10 0 0 0) (by simp) (.ofOctets 10 0 0 1) (by simp)).mpr
    (by decide)
  exact absurd hlt (by decide)

end NetIpOrders
