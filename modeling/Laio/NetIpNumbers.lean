import Laio.LibPositional
import Laio.NetIpv4Addr

/-! # Addresses as numbers

The big-endian number of an address, independent of how its bytes are grouped into words,
and the blocks of numbers that a prefix length cuts out. -/
namespace NetIpNumbers

open LibWords LibPositional NetIpv6Addr NetIpv4Addr

/-- The 128-bit number of the sixteen bytes in network order. -/
def value (addr : Ipv6Addr) : ℕ :=
  bigEndian 256 (addr.rawIpv6Address.byte.toList.map UInt8.toNat)

theorem value_ofSegments (a b c d e f g h : UInt16) :
    value (.ofSegments a b c d e f g h) =
      bigEndian 65536 [a.toNat, b.toNat, c.toNat, d.toNat, e.toNat, f.toNat, g.toNat, h.toNat] := by
  have hpairs := bigEndian_pairs 256 ([a, b, c, d, e, f, g, h].map fun w =>
    (w.toNat / 256, w.toNat % 256))
  simp only [List.map_cons, List.map_nil, Nat.div_add_mod', List.flatMap_cons, List.flatMap_nil,
    List.cons_append, List.nil_append] at hpairs
  rw [hpairs]
  simp [value, Ipv6Addr.ofSegments, Ipv6Addr.ofBytes]

/-- The 32-bit number of the four octets in network order. -/
def value4 (addr : Ipv4Addr) : ℕ :=
  let (a, b, c, d) := addr.octets
  bigEndian 256 [a.toNat, b.toNat, c.toNat, d.toNat]

theorem value4_ofOctets (a b c d : UInt8) : value4 (.ofOctets a b c d) =
    ((a.toNat * 256 + b.toNat) * 256 + c.toNat) * 256 + d.toNat := by
  simp [value4, bigEndian_cons]
  omega

theorem segment_toNat_lt (ws : List UInt16) : ∀ n ∈ ws.map UInt16.toNat, n < 65536 :=
  digits_lt UInt16.toNat_lt ws

theorem octet_toNat_lt (ws : List UInt8) : ∀ n ∈ ws.map UInt8.toNat, n < 256 :=
  digits_lt UInt8.toNat_lt ws

theorem value_injective : Function.Injective value := by
  intro lhs rhs hv
  obtain ⟨a, b, c, d, e, f, g, h, rfl⟩ := lhs.exists_ofSegments
  obtain ⟨a', b', c', d', e', f', g', h', rfl⟩ := rhs.exists_ofSegments
  rw [value_ofSegments, value_ofSegments] at hv
  have hlist : [a, b, c, d, e, f, g, h].map UInt16.toNat =
      [a', b', c', d', e', f', g', h'].map UInt16.toNat :=
    bigEndian_inj (by decide) rfl (segment_toNat_lt _) (segment_toNat_lt _) hv
  simpa [UInt16.toNat_inj, Ipv6Addr.ofSegments_inj] using hlist

theorem value4_injective : Function.Injective value4 := by
  intro lhs rhs hv
  obtain ⟨a, b, c, d, rfl⟩ := lhs.exists_ofOctets
  obtain ⟨a', b', c', d', rfl⟩ := rhs.exists_ofOctets
  have hlist : [a, b, c, d].map UInt8.toNat = [a', b', c', d'].map UInt8.toNat :=
    bigEndian_inj (by decide) rfl (octet_toNat_lt _) (octet_toNat_lt _) hv
  obtain ⟨rfl, rfl, rfl, rfl⟩ : a = a' ∧ b = b' ∧ c = c' ∧ d = d' := by
    simpa [UInt8.toNat_inj] using hlist
  rfl

theorem inBlock_segments_iff {r len : ℕ} (hr : r ≤ 16) (xs : List UInt16) (w : UInt16)
    (ys xs' : List UInt16) (w' : UInt16) (ys' : List UInt16) (hlen : xs.length = xs'.length)
    (hlen' : ys.length = ys'.length) (hw : 128 = 16 * xs.length + 16 + 16 * ys.length)
    (hl : len = 16 * xs.length + r) :
    InBlock 128 (bigEndian 65536 ((xs' ++ w' :: ys').map UInt16.toNat)) len
        (bigEndian 65536 ((xs ++ w :: ys).map UInt16.toNat)) ↔
      xs = xs' ∧ w.toNat / 2 ^ (16 - r) = w'.toNat / 2 ^ (16 - r) :=
  inBlock_map_iff (fun _ _ h => UInt16.toNat_inj.mp h) UInt16.toNat_lt (by decide) hr
    xs w ys xs' w' ys' hlen hlen' hw hl

theorem inBlock_octets_iff {r len : ℕ} (hr : r ≤ 8) (xs : List UInt8) (o : UInt8)
    (ys xs' : List UInt8) (o' : UInt8) (ys' : List UInt8) (hlen : xs.length = xs'.length)
    (hlen' : ys.length = ys'.length) (hw : 32 = 8 * xs.length + 8 + 8 * ys.length)
    (hl : len = 8 * xs.length + r) :
    InBlock 32 (bigEndian 256 ((xs' ++ o' :: ys').map UInt8.toNat)) len
        (bigEndian 256 ((xs ++ o :: ys).map UInt8.toNat)) ↔
      xs = xs' ∧ o.toNat / 2 ^ (8 - r) = o'.toNat / 2 ^ (8 - r) :=
  inBlock_map_iff (fun _ _ h => UInt8.toNat_inj.mp h) UInt8.toNat_lt (by decide) hr
    xs o ys xs' o' ys' hlen hlen' hw hl

theorem inBlock_whole_iff {len : ℕ} (xs : List UInt16) (w : UInt16) (ys xs' : List UInt16)
    (w' : UInt16) (ys' : List UInt16)
    (hlen : xs.length = xs'.length) (hlen' : ys.length = ys'.length)
    (hw : 128 = 16 * xs.length + 16 + 16 * ys.length) (hl : len = 16 * xs.length + 16) :
    InBlock 128 (bigEndian 65536 ((xs' ++ w' :: ys').map UInt16.toNat)) len
        (bigEndian 65536 ((xs ++ w :: ys).map UInt16.toNat)) ↔ xs = xs' ∧ w = w' := by
  rw [inBlock_segments_iff le_rfl xs w ys xs' w' ys' hlen hlen' hw hl, Nat.sub_self,
    Nat.pow_zero, Nat.div_one, Nat.div_one, UInt16.toNat_inj]

theorem inBlock_96_iff {a b c d e f g h a' b' c' d' e' f' : UInt16} :
    InBlock 128 (value (.ofSegments a' b' c' d' e' f' 0 0)) 96
        (value (.ofSegments a b c d e f g h)) ↔
      a = a' ∧ b = b' ∧ c = c' ∧ d = d' ∧ e = e' ∧ f = f' := by
  have hblock := inBlock_whole_iff [a, b, c, d, e] f [g, h] [a', b', c', d', e'] f' [0, 0]
    rfl rfl rfl rfl
  rw [value_ofSegments, value_ofSegments]
  refine hblock.trans ?_
  simp [and_assoc]

end NetIpNumbers
