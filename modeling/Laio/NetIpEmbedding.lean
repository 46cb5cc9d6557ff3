import Laio.NetIpNumbers
import Laio.NetIpv4Addr

/-! # IPv4 addresses inside IPv6

The compatible and the mapped form are two disjoint copies of the IPv4 address space, and
the conversion back is their common inverse. -/
namespace NetIpEmbedding

open LibWords LibPositional NetIpv6Addr NetIpv4Addr NetIpNumbers

theorem toIpv6Compatible_ofOctets (a b c d : UInt8) :
    (Ipv4Addr.ofOctets a b c d).toIpv6Compatible =
      .ofSegments 0 0 0 0 0 0 (leWord b a) (leWord d c) := by
  apply Ipv6Addr.segments_injective
  simp [Ipv4Addr.toIpv6Compatible, leWord]

theorem toIpv6Mapped_ofOctets (a b c d : UInt8) :
    (Ipv4Addr.ofOctets a b c d).toIpv6Mapped =
      .ofSegments 0 0 0 0 0 0xffff (leWord b a) (leWord d c) := by
  apply Ipv6Addr.segments_injective
  simp [Ipv4Addr.toIpv6Mapped]
  decide

theorem toIpv4_ofSegments (a b c d e f g h : UInt16) :
    toIpv4 (.ofSegments a b c d e f g h) =
      if a = 0 ∧ b = 0 ∧ c = 0 ∧ d = 0 ∧ e = 0 ∧ (f = 0 ∨ f = 0xffff) then
        some (.ofOctets (highByte g) (lowByte g) (highByte h) (lowByte h))
      else none := by
  simp [toIpv4]

theorem toIpv4_compatible (v : Ipv4Addr) : toIpv4 v.toIpv6Compatible = some v := by
  obtain ⟨a, b, c, d, rfl⟩ := v.exists_ofOctets
  simp [toIpv6Compatible_ofOctets, toIpv4_ofSegments]

theorem toIpv4_mapped (v : Ipv4Addr) : toIpv4 v.toIpv6Mapped = some v := by
  obtain ⟨a, b, c, d, rfl⟩ := v.exists_ofOctets
  simp [toIpv6Mapped_ofOctets, toIpv4_ofSegments]

theorem toIpv4_isSome_iff (addr : Ipv6Addr) : (toIpv4 addr).isSome ↔
    InBlock 128 (value (.ofSegments 0 0 0 0 0 0 0 0)) 96 (value addr) ∨
    InBlock 128 (value (.ofSegments 0 0 0 0 0 0xffff 0 0)) 96 (value addr) := by
  obtain ⟨a, b, c, d, e, f, g, h, rfl⟩ := addr.exists_ofSegments
  rw [inBlock_96_iff, inBlock_96_iff, toIpv4_ofSegments]
  split
  · next hc => simpa using by tauto
  · next hc => simpa using by tauto

theorem eq_embedding_of_toIpv4 {addr : Ipv6Addr} {v : Ipv4Addr} (h : toIpv4 addr = some v) :
    addr = v.toIpv6Compatible ∨ addr = v.toIpv6Mapped := by
  obtain ⟨a, b, c, d, e, f, g, h', rfl⟩ := addr.exists_ofSegments
  rw [toIpv4_ofSegments] at h
  split at h
  · next hc =>
    obtain ⟨rfl, rfl, rfl, rfl, rfl, hf⟩ := hc
    obtain rfl := Option.some.inj h
    rw [toIpv6Compatible_ofOctets, toIpv6Mapped_ofOctets, leWord_bytes, leWord_bytes]
    rcases hf with rfl | rfl
    · exact Or.inl rfl
    · exact Or.inr rfl
  · cases h

theorem toIpv6Compatible_injective : Function.Injective Ipv4Addr.toIpv6Compatible := by
  intro v w h
  have hv := toIpv4_compatible v
  rw [h, toIpv4_compatible] at hv
  exact (Option.some.inj hv).symm

theorem toIpv6Mapped_injective : Function.Injective Ipv4Addr.toIpv6Mapped := by
  intro v w h
  have hv := toIpv4_mapped v
  rw [h, toIpv4_mapped] at hv
  exact (Option.some.inj hv).symm

theorem compatible_ne_mapped (v w : Ipv4Addr) : v.toIpv6Compatible ≠ w.toIpv6Mapped := by
  obtain ⟨a, b, c, d, rfl⟩ := v.exists_ofOctets
  obtain ⟨a', b', c', d', rfl⟩ := w.exists_ofOctets
  rw [toIpv6Compatible_ofOctets, toIpv6Mapped_ofOctets, Ne, Ipv6Addr.ofSegments_inj]
  rintro ⟨_, _, _, _, _, hf, _, _⟩
  exact absurd hf (by decide)

/-- Both embeddings are lossless and disjoint, and the conversion back is defined exactly
on their images, which are the two blocks of prefix length 96. -/
theorem embedding_lossless :
    (∀ v : Ipv4Addr, (∃ w, toIpv4 v.toIpv6Compatible = some w ∧ (w == v) = true) ∧
      ∃ w, toIpv4 v.toIpv6Mapped = some w ∧ (w == v) = true) ∧
    (∀ addr : Ipv6Addr, (toIpv4 addr).isSome ↔
      InBlock 128 0 96 (value addr) ∨ InBlock 128 0xffff00000000 96 (value addr)) ∧
    (∀ addr v, toIpv4 addr = some v →
      (addr == v.toIpv6Compatible) = true ∨ (addr == v.toIpv6Mapped) = true) ∧
    Function.Injective Ipv4Addr.toIpv6Compatible ∧ Function.Injective Ipv4Addr.toIpv6Mapped ∧
    ∀ v w : Ipv4Addr, v.toIpv6Compatible ≠ w.toIpv6Mapped := by
  refine ⟨fun v => ⟨⟨v, toIpv4_compatible v, beq_self_eq_true v⟩,
    v, toIpv4_mapped v, beq_self_eq_true v⟩, ?_, ?_, toIpv6Compatible_injective,
    toIpv6Mapped_injective, compatible_ne_mapped⟩
  · exact toIpv4_isSome_iff
  · intro addr v h
    rcases eq_embedding_of_toIpv4 h with rfl | rfl
    · exact Or.inl (beq_self_eq_true _)
    · exact Or.inr (beq_self_eq_true _)

end NetIpEmbedding
