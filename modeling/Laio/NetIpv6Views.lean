import Laio.NetIpNumbers

/-! # The views of an IPv6 address

Bytes, little-endian words and segments are three groupings of one number, and an address
can be taken apart and built again in each of them. -/
namespace NetIpv6Views

open LibPositional LibWords NetIpv6Addr NetIpNumbers

def bigEndianPair (high low : UInt8) : UInt16 := UInt16.ofNat (high.toNat * 256 + low.toNat)

/-- The byte of weight 256. -/
def upper (w : UInt16) : UInt8 := UInt8.ofNat (w.toNat / 256)

def lower (w : UInt16) : UInt8 := UInt8.ofNat (w.toNat % 256)

theorem bigEndianPair_eq (high low : UInt8) : bigEndianPair high low = leWord low high := by
  apply UInt16.toNat_inj.mp
  have := high.toNat_lt; have := low.toNat_lt
  rw [bigEndianPair, UInt16.toNat_ofNat', leWord_toNat, Nat.mod_eq_of_lt (by omega)]

theorem upper_eq (w : UInt16) : upper w = highByte w := by
  apply UInt8.toNat_inj.mp
  have := w.toNat_lt
  rw [upper, UInt8.toNat_ofNat', highByte_toNat, Nat.mod_eq_of_lt (by omega)]

theorem lower_eq (w : UInt16) : lower w = lowByte w := by
  apply UInt8.toNat_inj.mp
  rw [lower, UInt8.toNat_ofNat', lowByte_toNat, Nat.mod_eq_of_lt (by omega)]

/-- The three views as sequences of numbers. -/
def bytes (addr : Ipv6Addr) : List ℕ := addr.rawIpv6Address.byte.toList.map UInt8.toNat

def words (addr : Ipv6Addr) : List ℕ :=
  (List.ofFn addr.rawIpv6Address.word).map UInt16.toNat

def segments (addr : Ipv6Addr) : List ℕ :=
  let (a, b, c, d, e, f, g, h) := addr.segments
  [a, b, c, d, e, f, g, h].map UInt16.toNat

theorem exists_ofBytes (addr : Ipv6Addr) : ∃ a b c d e f g h i j k l m n o p,
    addr = .ofBytes a b c d e f g h i j k l m n o p := by
  obtain ⟨a, b, c, d, e, f, g, h, rfl⟩ := addr.exists_ofSegments
  exact ⟨_, _, _, _, _, _, _, _, _, _, _, _, _, _, _, _, rfl⟩

theorem leWord_pair (low high : UInt8) :
    (leWord low high).toNat = low.toNat + 256 * high.toNat := by
  rw [leWord_toNat, Nat.add_comm, Nat.mul_comm]

theorem ofDigits_words (addr : Ipv6Addr) :
    Nat.ofDigits 65536 (words addr) = Nat.ofDigits 256 (bytes addr) := by
  obtain ⟨a, b, c, d, e, f, g, h, i, j, k, l, m, n, o, p, rfl⟩ := exists_ofBytes addr
  have hwords : words (.ofBytes a b c d e f g h i j k l m n o p) =
      [leWord a b, leWord c d, leWord e f, leWord g h, leWord i j, leWord k l, leWord m n,
        leWord o p].map UInt16.toNat := rfl
  have hpairs := ofDigits_pairs 256 ([(a, b), (c, d), (e, f), (g, h), (i, j), (k, l), (m, n),
    (o, p)].map fun q => (q.1.toNat, q.2.toNat))
  rw [hwords]
  simp only [List.map_cons, List.map_nil, leWord_pair]
  exact hpairs

theorem bigEndian_segments (addr : Ipv6Addr) :
    bigEndian 65536 (segments addr) = bigEndian 256 (bytes addr) := by
  obtain ⟨a, b, c, d, e, f, g, h, rfl⟩ := addr.exists_ofSegments
  have hsegments : segments (.ofSegments a b c d e f g h) =
      [a, b, c, d, e, f, g, h].map UInt16.toNat := by
    simp [segments]
  rw [hsegments]
  exact (value_ofSegments a b c d e f g h).symm

/-- Segments and bytes go in and come out in order, an address is built again from its
segments, both constructors agree, and the groupings are those of one number. -/
theorem views_agree :
    (∀ a b c d e f g h : UInt16,
      (Ipv6Addr.ofSegments a b c d e f g h).segments = (a, b, c, d, e, f, g, h)) ∧
    (∀ a b c d e f g h i j k l m n o p : UInt8,
      (Ipv6Addr.ofBytes a b c d e f g h i j k l m n o p).segments =
        (bigEndianPair a b, bigEndianPair c d, bigEndianPair e f, bigEndianPair g h,
          bigEndianPair i j, bigEndianPair k l, bigEndianPair m n, bigEndianPair o p)) ∧
    (∀ addr : Ipv6Addr,
      let (a, b, c, d, e, f, g, h) := addr.segments
      (Ipv6Addr.ofSegments a b c d e f g h == addr) = true) ∧
    (∀ a b c d e f g h : UInt16,
      (Ipv6Addr.ofSegments a b c d e f g h ==
        .ofBytes (upper a) (lower a) (upper b) (lower b) (upper c) (lower c) (upper d) (lower d)
          (upper e) (lower e) (upper f) (lower f) (upper g) (lower g) (upper h) (lower h)) =
        true) ∧
    (∀ addr : Ipv6Addr, Nat.ofDigits 65536 (words addr) = Nat.ofDigits 256 (bytes addr)) ∧
    ∀ addr : Ipv6Addr, bigEndian 65536 (segments addr) = bigEndian 256 (bytes addr) := by
  refine ⟨Ipv6Addr.segments_ofSegments, ?_, ?_, ?_, ofDigits_words, bigEndian_segments⟩
  · intro a b c d e f g h i j k l m n o p
    simp only [Ipv6Addr.segments_ofBytes, bigEndianPair_eq]
  · intro addr
    obtain ⟨a, b, c, d, e, f, g, h, rfl⟩ := addr.exists_ofSegments
    rw [Ipv6Addr.segments_ofSegments]
    exact beq_self_eq_true _
  · intro a b c d e f g h
    simp only [upper_eq, lower_eq]
    exact beq_self_eq_true _

end NetIpv6Views
