import Laio.NetIpv6Lossless

/-! # The text of embedded IPv4 addresses

The formatter of an IPv6 address and the conversion to IPv4 split the last two segments on
their own, under their own copy of one condition. Their texts are those of the IPv4
formatter, which the IPv4 parser reads back. -/
namespace NetIpEmbeddedText

open LibWords NetIpv6Addr NetIpv4Addr NetIpv4Parsing NetIpEmbedding NetIpv6Text NetIpv6Lossless

/-- The text is `before`, followed by the text of `v`, and whatever follows `before` in it
is read back as `v`. -/
structure EmbeddedText (fmt : Fmt) (addr : Ipv6Addr) (before : Text) (v : Ipv4Addr) : Prop where
  text : addr.toStdString fmt = some (before ++ v.toStdString fmt)
  parsed : ∀ rest, addr.toStdString fmt = some (before ++ rest) →
    Ipv4Addr.fromString rest = some v

variable {fmt : Fmt}

theorem EmbeddedText.of_text (hf : fmt.Documented) {addr : Ipv6Addr} {before : Text}
    {v : Ipv4Addr} (h : addr.toStdString fmt = some (before ++ v.toStdString fmt)) :
    EmbeddedText fmt addr before v := by
  refine ⟨h, ?_⟩
  intro rest hrest
  have heq : before ++ v.toStdString fmt = before ++ rest := Option.some.inj (h.symm.trans hrest)
  rw [← List.append_cancel_left heq]
  exact fromString_toStdString hf v

theorem exists_quad (v : Ipv4Addr) : ∃ g h, v = quad g h := by
  obtain ⟨a, b, c, d, rfl⟩ := v.exists_ofOctets
  refine ⟨leWord b a, leWord d c, ?_⟩
  simp [quad]

theorem quad_not_special {g h : UInt16} (h0 : quad g h ≠ .ofOctets 0 0 0 0)
    (h1 : quad g h ≠ .ofOctets 0 0 0 1) : ¬(g = 0 ∧ (h = 0 ∨ h = 1)) := by
  rintro ⟨rfl, rfl | rfl⟩
  · exact h0 rfl
  · exact h1 rfl

theorem toIpv4_eq_none_iff (addr : Ipv6Addr) : toIpv4 addr = none ↔ ¬Ipv4Convertible addr := by
  obtain ⟨a, b, c, d, e, f, g, h, rfl⟩ := addr.exists_ofSegments
  rw [toIpv4_ofSegments, ipv4Convertible_ofSegments]
  split
  · next hc => exact iff_of_false nofun (not_not_intro hc)
  · next hc => exact iff_of_true rfl hc

theorem mapped_text (hf : fmt.Documented) {v : Ipv4Addr} (h0 : v ≠ .ofOctets 0 0 0 0)
    (h1 : v ≠ .ofOctets 0 0 0 1) :
    EmbeddedText fmt v.toIpv6Mapped [':', ':', 'f', 'f', 'f', 'f', ':'] v := by
  obtain ⟨g, h, rfl⟩ := exists_quad v
  rw [quad_toIpv6Mapped]
  exact .of_text hf (toStdString_low (Or.inr rfl) (quad_not_special h0 h1))

theorem compatible_text (hf : fmt.Documented) {v : Ipv4Addr} (h0 : v ≠ .ofOctets 0 0 0 0)
    (h1 : v ≠ .ofOctets 0 0 0 1) : EmbeddedText fmt v.toIpv6Compatible [':', ':'] v := by
  obtain ⟨g, h, rfl⟩ := exists_quad v
  rw [quad_toIpv6Compatible]
  exact .of_text hf (toStdString_low (Or.inl rfl) (quad_not_special h0 h1))

theorem period_not_mem_text (hf : fmt.Documented) {addr : Ipv6Addr} (h : toIpv4 addr = none) :
    ∃ t, addr.toStdString fmt = some t ∧ '.' ∉ t := by
  obtain ⟨zeroSpanAt, zeroSpanLen, _, htext⟩ :=
    toStdString_eq_hexText fmt ((toIpv4_eq_none_iff addr).mp h)
  exact ⟨_, htext, not_mem_hexText hf (by decide) (by decide) _ _ _⟩

/-- An address that converts to `v` is printed as its prefix and the text of `v`, which
parses to `v`, and no other address is printed with a period. -/
theorem embedded_text_agrees (hf : fmt.Documented) :
    (∀ addr v, toIpv4 addr = some v → v ≠ .ofOctets 0 0 0 0 → v ≠ .ofOctets 0 0 0 1 →
      (addr = v.toIpv6Mapped ∨ addr = v.toIpv6Compatible) ∧
      (addr = v.toIpv6Mapped → EmbeddedText fmt addr [':', ':', 'f', 'f', 'f', 'f', ':'] v) ∧
      (addr = v.toIpv6Compatible → EmbeddedText fmt addr [':', ':'] v)) ∧
    ∀ addr, toIpv4 addr = none → ∃ t, addr.toStdString fmt = some t ∧ '.' ∉ t := by
  refine ⟨?_, fun addr => period_not_mem_text hf⟩
  intro addr v hv h0 h1
  refine ⟨(eq_embedding_of_toIpv4 hv).symm, ?_, ?_⟩
  · rintro rfl
    exact mapped_text hf h0 h1
  · rintro rfl
    exact compatible_text hf h0 h1

theorem embedded_text_agrees_standard :
    EmbeddedText Fmt.standard (Ipv4Addr.ofOctets 192 0 2 128).toIpv6Mapped
      [':', ':', 'f', 'f', 'f', 'f', ':'] (.ofOctets 192 0 2 128) ∧
    ∃ t, (Ipv6Addr.ofSegments 0x2001 0xdb8 0 0 0 0 0 1).toStdString Fmt.standard = some t ∧
      '.' ∉ t := by
  have h := embedded_text_agrees Fmt.standard_documented
  have hne : Ipv4Addr.ofOctets 192 0 2 128 ≠ .ofOctets 0 0 0 0 ∧
      Ipv4Addr.ofOctets 192 0 2 128 ≠ .ofOctets 0 0 0 1 := by
    simp [Ipv4Addr.ofOctets]
  refine ⟨(h.1 _ _ (toIpv4_mapped _) hne.1 hne.2).2.1 rfl, h.2 _ ?_⟩
  rw [toIpv4_eq_none_iff, ipv4Convertible_ofSegments]
  decide

end NetIpEmbeddedText
