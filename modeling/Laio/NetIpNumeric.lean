import Laio.NetIpv6Partition

/-! # Addresses are numbers

Both kinds of addresses are in bijection with the numbers of their width, in their order,
and the conversions between the kinds are additions. -/
namespace NetIpNumeric

open LibPositional LibWords NetIpv6Addr NetIpv4Addr NetIpNumbers NetIpEmbedding NetIpOrders
open NetIpv6Partition

def segment (n k : ℕ) : UInt16 := UInt16.ofNat (n / 2 ^ k)

def octet (n k : ℕ) : UInt8 := UInt8.ofNat (n / 2 ^ k)

def ipv6OfNumber (n : ℕ) : Ipv6Addr :=
  .ofSegments (segment n 112) (segment n 96) (segment n 80) (segment n 64)
    (segment n 48) (segment n 32) (segment n 16) (segment n 0)

def ipv4OfNumber (n : ℕ) : Ipv4Addr :=
  .ofOctets (octet n 24) (octet n 16) (octet n 8) (octet n 0)

theorem value_lt (addr : Ipv6Addr) : value addr < 2 ^ 128 := by
  obtain ⟨a, b, c, d, e, f, g, h, rfl⟩ := addr.exists_ofSegments
  rw [value_ofSegments, show 2 ^ 128 = 65536 ^ 8 by decide]
  exact bigEndian_lt (by decide) (segment_toNat_lt [a, b, c, d, e, f, g, h])

theorem value_ipv6OfNumber {n : ℕ} (hn : n < 2 ^ 128) : value (ipv6OfNumber n) = n := by
  have hdigits : bigEndian (2 ^ 16) _ = n % (2 ^ 16) ^ 8 := bigEndian_lastDigits (2 ^ 16) n 8
  rw [← Nat.pow_mul, Nat.mod_eq_of_lt hn] at hdigits
  rw [ipv6OfNumber, value_ofSegments]
  simp only [segment, UInt16.toNat_ofNat']
  exact hdigits

theorem value4_ipv4OfNumber {n : ℕ} (hn : n < 2 ^ 32) : value4 (ipv4OfNumber n) = n := by
  have hdigits : bigEndian (2 ^ 8) _ = n % (2 ^ 8) ^ 4 := bigEndian_lastDigits (2 ^ 8) n 4
  rw [← Nat.pow_mul, Nat.mod_eq_of_lt hn] at hdigits
  rw [ipv4OfNumber, value4, Ipv4Addr.octets_ofOctets]
  simp only [octet, UInt8.toNat_ofNat']
  exact hdigits

def toNumber (addr : Ipv6Addr) : Fin (2 ^ 128) := ⟨value addr, value_lt addr⟩

def toNumber4 (addr : Ipv4Addr) : Fin (2 ^ 32) := ⟨value4 addr, value4_lt addr⟩

theorem toNumber_bijective : Function.Bijective toNumber := by
  constructor
  · intro lhs rhs h
    apply value_injective
    exact Fin.mk.inj h
  · intro n
    exact ⟨ipv6OfNumber n, Fin.ext (value_ipv6OfNumber n.isLt)⟩

theorem toNumber4_bijective : Function.Bijective toNumber4 := by
  constructor
  · intro lhs rhs h
    apply value4_injective
    exact Fin.mk.inj h
  · intro n
    exact ⟨ipv4OfNumber n, Fin.ext (value4_ipv4OfNumber n.isLt)⟩

theorem toIpv4_eq_some_iff (addr : Ipv6Addr) (v : Ipv4Addr) : toIpv4 addr = some v ↔
    value addr = value4 v ∨ value addr = 0xffff00000000 + value4 v := by
  rw [← value_toIpv6Mapped, ← value_toIpv6Compatible, value_injective.eq_iff,
    value_injective.eq_iff]
  constructor
  · exact eq_embedding_of_toIpv4
  · rintro (rfl | rfl)
    · exact toIpv4_compatible v
    · exact toIpv4_mapped v

/-- IPv6 addresses are the numbers below 2^128 with `<` as their order, IPv4 addresses are
those below 2^32, and the conversions between them are arithmetic. -/
theorem addresses_are_numbers :
    Function.Bijective toNumber ∧ Function.Bijective toNumber4 ∧
    (∀ lhs rhs : Ipv6Addr, lhs.lt rhs = true ↔ toNumber lhs < toNumber rhs) ∧
    (∀ v : Ipv4Addr, (toNumber v.toIpv6Compatible).val = (toNumber4 v).val) ∧
    (∀ v : Ipv4Addr, (toNumber v.toIpv6Mapped).val = 0xffff00000000 + (toNumber4 v).val) ∧
    ∀ addr v, toIpv4 addr = some v ↔ (toNumber addr).val = (toNumber4 v).val ∨
      (toNumber addr).val = 0xffff00000000 + (toNumber4 v).val :=
  ⟨toNumber_bijective, toNumber4_bijective, ipv6_lt_iff, value_toIpv6Compatible,
    value_toIpv6Mapped, toIpv4_eq_some_iff⟩

end NetIpNumeric
