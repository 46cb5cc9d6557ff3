import Laio.NetIpOrders
import Laio.NetIpv6Classes

/-! # One class for every IPv6 address

The unicast global addresses are what six blocks leave, and each block is an interval of the
order. Among the embedded IPv4 addresses only two are in one of the blocks. -/
namespace NetIpv6Partition

open LibPositional LibWords NetIpv6Addr NetIpv4Addr NetIpNumbers NetIpEmbedding
open NetIpOrders NetIpv6Classes

inductive AddressClass where
  | multicast
  | unspecified
  | loopback
  | linkLocal
  | uniqueLocal
  | documentation
  | unicastGlobal
  deriving DecidableEq, Repr

def belongs (addr : Ipv6Addr) : AddressClass → Bool
  | .multicast => addr.isMulticast
  | .unspecified => addr.isUnspecified
  | .loopback => addr.isLoopback
  | .linkLocal => addr.isUnicastLinkLocal
  | .uniqueLocal => addr.isUniqueLocal
  | .documentation => addr.isDocumentation
  | .unicastGlobal => addr.isUnicastGlobal

theorem unicastGlobal_iff (addr : Ipv6Addr) : belongs addr .unicastGlobal = true ↔
    ∀ k, k ≠ .unicastGlobal → ¬belongs addr k = true := by
  simp only [belongs, Ipv6Addr.isUnicastGlobal, Bool.and_eq_true, Bool.not_eq_true',
    ← Bool.not_eq_true]
  constructor
  · rintro ⟨⟨⟨⟨⟨hm, hlo⟩, hll⟩, hul⟩, hun⟩, hdoc⟩ k hk
    cases k with
    | multicast => exact hm
    | unspecified => exact hun
    | loopback => exact hlo
    | linkLocal => exact hll
    | uniqueLocal => exact hul
    | documentation => exact hdoc
    | unicastGlobal => exact (hk rfl).elim
  · intro h
    exact ⟨⟨⟨⟨⟨h .multicast (by decide), h .loopback (by decide)⟩, h .linkLocal (by decide)⟩,
      h .uniqueLocal (by decide)⟩, h .unspecified (by decide)⟩, h .documentation (by decide)⟩

def Numbered (n : ℕ) : AddressClass → Prop
  | .multicast => n / 2 ^ 120 = 0xff
  | .unspecified => n = 0
  | .loopback => n = 1
  | .linkLocal => n / 2 ^ 118 = 0x3fa
  | .uniqueLocal => n / 2 ^ 121 = 0x7e
  | .documentation => n / 2 ^ 96 = 0x20010db8
  | .unicastGlobal => False

theorem belongs_iff_numbered {addr : Ipv6Addr} {k : AddressClass} (hk : k ≠ .unicastGlobal) :
    belongs addr k = true ↔ Numbered (value addr) k := by
  cases k with
  | multicast =>
    have hbase : value (.ofSegments 0xff00 0 0 0 0 0 0 0) / 2 ^ 120 = 0xff := by decide
    rw [belongs, isMulticast_iff, InBlock, Numbered, ← hbase]
  | unspecified => exact isUnspecified_iff
  | loopback => exact isLoopback_iff
  | linkLocal =>
    have hbase : value (.ofSegments 0xfe80 0 0 0 0 0 0 0) / 2 ^ 118 = 0x3fa := by decide
    rw [belongs, isUnicastLinkLocal_iff, InBlock, Numbered, ← hbase]
  | uniqueLocal =>
    have hbase : value (.ofSegments 0xfc00 0 0 0 0 0 0 0) / 2 ^ 121 = 0x7e := by decide
    rw [belongs, isUniqueLocal_iff, InBlock, Numbered, ← hbase]
  | documentation =>
    have hbase : value (.ofSegments 0x2001 0xdb8 0 0 0 0 0 0) / 2 ^ 96 = 0x20010db8 := by decide
    rw [belongs, isDocumentation_iff, InBlock, Numbered, ← hbase]
  | unicastGlobal => exact (hk rfl).elim

theorem numbered_disjoint {n : ℕ} {k l : AddressClass} (hk : Numbered n k) (hl : Numbered n l) :
    k = l := by
  cases k <;> cases l <;> simp only [Numbered] at hk hl ⊢ <;> omega

theorem numbered_between {x y z : ℕ} {k : AddressClass} (hx : Numbered x k) (hz : Numbered z k)
    (hxy : x ≤ y) (hyz : y ≤ z) : Numbered y k := by
  cases k <;> simp only [Numbered] at hx hz ⊢ <;> omega

theorem existsUnique_class (addr : Ipv6Addr) : ∃! k, belongs addr k = true := by
  by_cases h : belongs addr .unicastGlobal = true
  · refine ⟨_, h, fun l hl => ?_⟩
    by_contra hne
    exact (unicastGlobal_iff addr).mp h l hne hl
  · have hsome := h
    rw [unicastGlobal_iff] at hsome
    simp only [not_forall, not_not, exists_prop] at hsome
    obtain ⟨k, hk, hbelongs⟩ := hsome
    refine ⟨k, hbelongs, fun l hl => ?_⟩
    have hl' : l ≠ .unicastGlobal := by
      rintro rfl
      exact h hl
    exact numbered_disjoint ((belongs_iff_numbered hl').mp hl)
      ((belongs_iff_numbered hk).mp hbelongs)

theorem linkLocal_of_strict {addr : Ipv6Addr} (h : addr.isUnicastLinkLocalStrict = true) :
    belongs addr .linkLocal = true := by
  have hbase : value (.ofSegments 0xfe80 0 0 0 0 0 0 0) = 0xfe80 * 2 ^ 112 := by decide
  rw [isUnicastLinkLocalStrict_iff, InBlock, hbase] at h
  rw [belongs_iff_numbered (by decide), Numbered]
  omega

/-- The deprecated site-local block has no class of its own. -/
theorem unicastGlobal_of_siteLocal {addr : Ipv6Addr} (h : addr.isUnicastSiteLocal = true) :
    belongs addr .unicastGlobal = true := by
  have hbase : value (.ofSegments 0xfec0 0 0 0 0 0 0 0) = 0xfec0 * 2 ^ 112 := by decide
  rw [isUnicastSiteLocal_iff, InBlock, hbase] at h
  rw [unicastGlobal_iff]
  intro k hk hbelongs
  rw [belongs_iff_numbered hk] at hbelongs
  cases k <;> simp only [Numbered] at hbelongs <;> omega

theorem between_of_block {x y z : Ipv6Addr} {k : AddressClass} (hk : k ≠ .unicastGlobal)
    (hx : belongs x k = true) (hz : belongs z k = true) (hxy : x.lt y = true)
    (hyz : y.lt z = true) : belongs y k = true := by
  rw [belongs_iff_numbered hk] at hx hz ⊢
  rw [ipv6_lt_iff] at hxy hyz
  exact numbered_between hx hz hxy.le hyz.le

/-- Every address is in exactly one of seven classes. Link-local in the strict sense is
link-local, site-local is unicast global, and what lies between two addresses of one of the
six blocks is in that block. -/
theorem ipv6_partition :
    (∀ addr, ∃! k, belongs addr k = true) ∧
    (∀ addr : Ipv6Addr, addr.isUnicastLinkLocalStrict = true → belongs addr .linkLocal = true) ∧
    (∀ addr : Ipv6Addr, addr.isUnicastSiteLocal = true → belongs addr .unicastGlobal = true) ∧
    ∀ (x y z : Ipv6Addr) k, k ≠ .unicastGlobal → belongs x k = true → belongs z k = true →
      x.lt y = true → y.lt z = true → belongs y k = true :=
  ⟨existsUnique_class, fun _ => linkLocal_of_strict, fun _ => unicastGlobal_of_siteLocal,
    fun _ _ _ _ hk => between_of_block hk⟩

theorem value4_lt (v : Ipv4Addr) : value4 v < 2 ^ 32 := by
  obtain ⟨a, b, c, d, rfl⟩ := v.exists_ofOctets
  have ha := a.toNat_lt
  have hb := b.toNat_lt
  have hc := c.toNat_lt
  have hd := d.toNat_lt
  rw [value4_ofOctets]
  omega

theorem value_toIpv6Compatible (v : Ipv4Addr) : value v.toIpv6Compatible = value4 v := by
  obtain ⟨a, b, c, d, rfl⟩ := v.exists_ofOctets
  rw [toIpv6Compatible_ofOctets, value_ofSegments, value4_ofOctets]
  simp [bigEndian_cons, leWord_toNat]
  omega

theorem unicastGlobal_of_value {addr : Ipv6Addr} (hlow : 1 < value addr)
    (hhigh : value addr < 2 ^ 48) : belongs addr .unicastGlobal = true := by
  rw [unicastGlobal_iff]
  intro k hk hbelongs
  rw [belongs_iff_numbered hk] at hbelongs
  cases k <;> simp only [Numbered] at hbelongs <;> omega

theorem mapped_unicastGlobal (v : Ipv4Addr) :
    belongs v.toIpv6Mapped .unicastGlobal = true := by
  have hv := value4_lt v
  have hmapped := value_toIpv6Mapped v
  exact unicastGlobal_of_value (by omega) (by omega)

theorem compatible_cases (v : Ipv4Addr) :
    v = .ofOctets 0 0 0 0 ∧ belongs v.toIpv6Compatible .unspecified = true ∨
    v = .ofOctets 0 0 0 1 ∧ belongs v.toIpv6Compatible .loopback = true ∨
    belongs v.toIpv6Compatible .unicastGlobal = true := by
  have hv := value4_lt v
  have hvalue := value_toIpv6Compatible v
  by_cases h0 : value4 v = 0
  · refine Or.inl ⟨value4_injective h0, ?_⟩
    rw [belongs_iff_numbered (by decide)]
    exact hvalue.trans h0
  · by_cases h1 : value4 v = 1
    · refine Or.inr (Or.inl ⟨value4_injective h1, ?_⟩)
      rw [belongs_iff_numbered (by decide)]
      exact hvalue.trans h1
    · exact Or.inr (Or.inr (unicastGlobal_of_value (by omega) (by omega)))

theorem isGlobal_of_unicastGlobal {addr : Ipv6Addr} (h : belongs addr .unicastGlobal = true) :
    addr.isGlobal = true := by
  rw [Ipv6Addr.isGlobal, Bool.or_eq_true]
  exact Or.inr h

theorem not_isGlobal_of_belongs {addr : Ipv6Addr} {k : AddressClass}
    (hk : k ≠ .unicastGlobal) (hm : k ≠ .multicast) (h : belongs addr k = true) :
    addr.isGlobal = false := by
  have hunique : ∀ l, belongs addr l = true → k = l :=
    fun _ => (existsUnique_class addr).unique h
  have hmulticast : ¬addr.isMulticast = true := fun h' => hm (hunique .multicast h')
  have hglobal : ¬addr.isUnicastGlobal = true := fun h' => hk (hunique .unicastGlobal h')
  simp [Ipv6Addr.isGlobal, Ipv6Addr.multicastScope, hmulticast, hglobal]

theorem embedded_cases {addr : Ipv6Addr} {v : Ipv4Addr} (h : toIpv4 addr = some v) :
    (addr.isUnspecified = true ∨ addr.isLoopback = true) ∧ addr.isGlobal = false ∧
        v.isGlobal = false ∨
      ¬(addr.isUnspecified = true ∨ addr.isLoopback = true) ∧ addr.isGlobal = true := by
  have hglobal : belongs addr .unicastGlobal = true →
      ¬(addr.isUnspecified = true ∨ addr.isLoopback = true) ∧ addr.isGlobal = true := by
    intro hbelongs
    have hnot := (unicastGlobal_iff addr).mp hbelongs
    refine ⟨?_, isGlobal_of_unicastGlobal hbelongs⟩
    rintro (hun | hlo)
    · exact hnot .unspecified (by decide) hun
    · exact hnot .loopback (by decide) hlo
  rcases eq_embedding_of_toIpv4 h with rfl | rfl
  · rcases compatible_cases v with ⟨rfl, hun⟩ | ⟨rfl, hlo⟩ | hbelongs
    · exact Or.inl ⟨Or.inl hun,
        not_isGlobal_of_belongs (k := .unspecified) (by decide) (by decide) hun, by decide⟩
    · exact Or.inl ⟨Or.inr hlo,
        not_isGlobal_of_belongs (k := .loopback) (by decide) (by decide) hlo, by decide⟩
    · exact Or.inr (hglobal hbelongs)
  · exact Or.inr (hglobal (mapped_unicastGlobal v))

/-- The mapped form of every IPv4 address, and the compatible form of all but two, is a
unicast global address, so the two families agree on an embedded address exactly if the IPv4
address is global, or the IPv6 address is unspecified or the loopback address. -/
theorem embedded_classes :
    (∀ v : Ipv4Addr, belongs v.toIpv6Mapped .unicastGlobal = true) ∧
    (∀ v : Ipv4Addr, v = .ofOctets 0 0 0 0 ∧ belongs v.toIpv6Compatible .unspecified = true ∨
      v = .ofOctets 0 0 0 1 ∧ belongs v.toIpv6Compatible .loopback = true ∨
      belongs v.toIpv6Compatible .unicastGlobal = true) ∧
    ∀ addr v, toIpv4 addr = some v → (addr.isGlobal = v.isGlobal ↔
      v.isGlobal = true ∨ addr.isUnspecified = true ∨ addr.isLoopback = true) := by
  refine ⟨mapped_unicastGlobal, compatible_cases, fun addr v h => ?_⟩
  rcases embedded_cases h with ⟨hlocal, haddr, hv⟩ | ⟨hlocal, haddr⟩
  · rw [haddr, hv]
    exact iff_of_true rfl (Or.inr hlocal)
  · rw [haddr, or_iff_left hlocal]
    exact eq_comm

end NetIpv6Partition
