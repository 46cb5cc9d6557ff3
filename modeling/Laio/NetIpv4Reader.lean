import Laio.NetIpv4Parsing
import Mathlib.Data.List.GetD

/-! # What `Ipv4Addr::from` reads

A reader that works on the pieces between the periods. It wants groups before the last
period, lets the last piece be empty, and takes zero for every piece that is missing. -/
namespace NetIpv4Reader

open LibSeparated NetIpv6Addr NetIpv4Addr NetIpv4Parsing

def isGroup (g : Text) : Bool :=
  !g.isEmpty && g.length ≤ 3 && g.all Char.isDigit && groupValue g ≤ 255

theorem isGroup_iff (g : Text) : isGroup g = true ↔ IsGroup g := by
  simp only [isGroup, Bool.and_eq_true, Bool.not_eq_true', List.isEmpty_eq_false_iff,
    decide_eq_true_eq, List.all_eq_true]
  constructor
  · rintro ⟨⟨⟨hne, hlen⟩, hdigits⟩, hvalue⟩
    exact ⟨hne, hlen, hdigits, hvalue⟩
  · intro h
    exact ⟨⟨⟨h.nonempty, h.short⟩, h.digits⟩, h.bounded⟩

def group? (g : Text) : Option ℕ := if isGroup g then some (groupValue g) else none

def lastGroup? (g : Text) : Option ℕ := if g = [] then some 0 else group? g

/-- Missing octets are zero. -/
def ofValues (values : List ℕ) : Ipv4Addr :=
  let octet i := UInt8.ofNat (values.getD i 0)
  .ofOctets (octet 0) (octet 1) (octet 2) (octet 3)

def readPieces (full : List Text) (last : Text) : Option Ipv4Addr := do
  let values ← full.mapM group?
  let value ← lastGroup? last
  if full.length ≤ 3 then some (ofValues (values ++ [value])) else none

def readDotted (t : Text) : Option Ipv4Addr :=
  let pieces := t.splitOn '.'
  readPieces pieces.dropLast (pieces.getLastD [])

theorem joined_eq_intercalate (full : List Text) (cur : Text) :
    joined full cur = ['.'].intercalate (full ++ [cur]) := by
  induction full with
  | nil => simp [joined]
  | cons g full ih =>
    obtain ⟨w, ws, hws⟩ : ∃ w ws, full ++ [cur] = w :: ws := List.exists_cons_of_ne_nil (by simp)
    rw [List.cons_append, hws, List.intercalate_cons_cons, ← hws, ← ih]
    simp [joined]

theorem joined_pieces (t : Text) :
    joined (t.splitOn '.').dropLast ((t.splitOn '.').getLastD []) = t := by
  have hne : t.splitOn '.' ≠ [] := List.splitOn_ne_nil _ _
  rw [joined_eq_intercalate, List.getLastD_eq_getLast?, List.getLast?_eq_some_getLast hne,
    Option.getD_some, List.dropLast_append_getLast hne, List.intercalate_splitOn]

theorem splitOn_joined {full : List Text} {cur : Text} (hfull : ∀ g ∈ full, '.' ∉ g)
    (hcur : '.' ∉ cur) : (joined full cur).splitOn '.' = full ++ [cur] := by
  rw [joined_eq_intercalate]
  refine List.splitOn_intercalate _ ?_ (by simp)
  intro g hg
  rcases List.mem_append.mp hg with hg | hg
  · exact hfull g hg
  · rwa [List.mem_singleton.mp hg]

theorem mapM_group? {full : List Text} {values : List ℕ} :
    full.mapM group? = some values ↔
      (∀ g ∈ full, IsGroup g) ∧ full.map groupValue = values := by
  induction full generalizing values with
  | nil => simp [eq_comm]
  | cons g full ih =>
    simp only [List.mapM_cons, group?, isGroup_iff, Option.bind_eq_bind, Option.bind_eq_some_iff,
      Option.pure_def, Option.ite_none_right_eq_some, Option.some.injEq, List.forall_mem_cons,
      List.map_cons]
    constructor
    · rintro ⟨_, ⟨hg, rfl⟩, values', hvalues, rfl⟩
      obtain ⟨hfull, rfl⟩ := ih.mp hvalues
      exact ⟨⟨hg, hfull⟩, rfl⟩
    · rintro ⟨⟨hg, hfull⟩, rfl⟩
      exact ⟨_, ⟨hg, rfl⟩, _, ih.mpr ⟨hfull, rfl⟩, rfl⟩

/-- What the last piece may be: an empty one or a group, and then it has a small value. -/
structure IsLast (g : Text) : Prop where
  short : g.length ≤ 3
  digits : ∀ c ∈ g, c.isDigit
  bounded : groupValue g ≤ 255

theorem lastGroup?_eq_some {g : Text} {value : ℕ} :
    lastGroup? g = some value ↔ IsLast g ∧ groupValue g = value := by
  by_cases hg : g = []
  · subst hg
    have hlast : IsLast [] := ⟨by simp, by simp, by simp [groupValue]⟩
    simp [lastGroup?, hlast, groupValue]
  · simp only [lastGroup?, if_neg hg, group?, isGroup_iff, Option.ite_none_right_eq_some,
      Option.some.injEq]
    refine and_congr_left fun _ => ⟨fun h => ⟨h.short, h.digits, h.bounded⟩, fun h => ?_⟩
    exact ⟨hg, h.short, h.digits, h.bounded⟩

theorem readPieces_eq_some {full : List Text} {last : Text} {v : Ipv4Addr} :
    readPieces full last = some v ↔ (∀ g ∈ full, IsGroup g) ∧ IsLast last ∧ full.length ≤ 3 ∧
      ofValues (full.map groupValue ++ [groupValue last]) = v := by
  simp only [readPieces, Option.bind_eq_bind, Option.bind_eq_some_iff, mapM_group?,
    lastGroup?_eq_some, Option.ite_none_right_eq_some, Option.some.injEq]
  constructor
  · rintro ⟨_, ⟨hfull, rfl⟩, _, ⟨hlast, rfl⟩, hlen, hv⟩
    exact ⟨hfull, hlast, hlen, hv⟩
  · rintro ⟨hfull, hlast, hlen, hv⟩
    exact ⟨_, ⟨hfull, rfl⟩, _, ⟨hlast, rfl⟩, hlen, hv⟩

theorem buf_get_eq {full : List Text} {cur : Text} {s : Scanner} (h : Scanned full cur s)
    (i : Fin 4) : s.buf.get i = (full.map groupValue ++ [groupValue cur]).getD i 0 := by
  obtain ⟨values, hvalues⟩ : ∃ values, values = full.map groupValue ++ [groupValue cur] :=
    ⟨_, rfl⟩
  have hbuf : s.buf.toList = values ++ List.replicate (3 - s.octet) 0 := by
    rw [h.buf_eq, hvalues]
    simp
  have hget : s.buf.get i = s.buf.toList.getD i 0 := by
    rw [List.getD_eq_getElem?_getD, Scanned.getElem?_buf, Option.getD_some]
  rw [hget, hbuf, ← hvalues]
  by_cases hi : i.val < values.length
  · exact List.getD_append _ _ _ _ hi
  · rw [List.getD_append_right _ _ _ _ (by omega),
      List.getD_eq_default values _ (Nat.le_of_not_lt hi), List.getD_eq_getElem?_getD,
      List.getElem?_replicate]
    split <;> rfl

theorem fromString_of_scanned {full : List Text} {cur : Text} {s : Scanner} {t : Text}
    (hs : t.foldlM Scanner.step Scanner.start = some s) (h : Scanned full cur s) :
    Ipv4Addr.fromString t = some (ofValues (full.map groupValue ++ [groupValue cur])) := by
  rw [fromString_eq_some]
  refine ⟨s, hs, ?_⟩
  simp only [buf_get_eq h]
  rfl

theorem fromString_eq_readDotted (t : Text) : Ipv4Addr.fromString t = readDotted t := by
  apply Option.ext
  intro v
  constructor
  · intro hv
    obtain ⟨s, hs, _⟩ := fromString_eq_some.mp hv
    obtain ⟨full, cur, rfl, hscan⟩ := scan_sound hs
    rw [fromString_of_scanned hs hscan] at hv
    have hpieces := splitOn_joined (fun g hg => period_not_mem (hscan.groups g hg).digits)
      (period_not_mem hscan.digits)
    rw [readDotted, hpieces, List.dropLast_concat, List.getLastD_concat, readPieces_eq_some]
    refine ⟨hscan.groups, ⟨?_, hscan.digits, hscan.bounded⟩, ?_, Option.some.inj hv⟩
    · rw [← hscan.pos_eq]
      exact hscan.pos_le
    · rw [← hscan.octet_eq]
      exact hscan.octet_le
  · intro hv
    obtain ⟨hfull, hlast, hlen, rfl⟩ := readPieces_eq_some.mp hv
    obtain ⟨s, hs, hscan⟩ := scan_complete hfull hlen hlast.short hlast.digits hlast.bounded
    rw [joined_pieces] at hs
    exact fromString_of_scanned hs hscan

theorem isGroup_zero : IsGroup ['0'] := isGroup_toDigits (Nat.zero_le 255)

theorem IsLast.isGroup {last : Text} (h : IsLast last) (hne : last ≠ []) : IsGroup last :=
  ⟨hne, h.short, h.digits, h.bounded⟩

theorem IsLast.exists_group {last : Text} (h : IsLast last) : ∃ g, IsGroup g ∧ last <+: g := by
  by_cases hne : last = []
  · exact ⟨['0'], isGroup_zero, hne ▸ List.nil_prefix⟩
  · exact ⟨last, h.isGroup hne, List.prefix_refl _⟩

theorem joined_prefix_quad {full : List Text} {last : Text} (hfull : ∀ g ∈ full, IsGroup g)
    (hlast : IsLast last) (hlen : full.length ≤ 3) :
    ∃ q a b c d, DottedQuad q a b c d ∧ joined full last <+: q := by
  obtain ⟨g, hg, hprefix⟩ := hlast.exists_group
  -- the pieces that are missing are taken to be zero
  obtain ⟨pieces, hpieces⟩ :
      ∃ pieces, pieces = (full ++ [g]) ++ List.replicate (3 - full.length) ['0'] := ⟨_, rfl⟩
  have hgroup : ∀ x ∈ pieces, IsGroup x := by
    intro x hx
    simp only [hpieces, List.mem_append, List.mem_singleton, List.mem_replicate] at hx
    rcases hx with (hx | rfl) | ⟨_, rfl⟩
    · exact hfull x hx
    · exact hg
    · exact isGroup_zero
  have hfour : pieces.length = 4 := by
    simp only [hpieces, List.length_append, List.length_singleton, List.length_replicate]
    omega
  obtain ⟨a, b, c, d, hquad⟩ := List.length_eq_four.mp hfour
  have htext : joined full g <+: joined [a, b, c] d := by
    have happend := join_prefix_append '.' (full ++ [g]) (List.replicate (3 - full.length) ['0'])
    rw [← hpieces, hquad] at happend
    rw [joined_eq_intercalate, joined_eq_intercalate]
    exact happend
  rw [hquad] at hgroup
  refine ⟨joined [a, b, c] d, a, b, c, d, ⟨by simp [joined], hgroup a (by simp),
    hgroup b (by simp), hgroup c (by simp), hgroup d (by simp)⟩, ?_⟩
  exact ((List.prefix_append_right_inj _).mpr hprefix).trans htext

theorem accepted_of_beginning {t q : Text} (h : t <+: q) (hq : (Ipv4Addr.fromString q).isSome) :
    (Ipv4Addr.fromString t).isSome := by
  obtain ⟨r, rfl⟩ := h
  obtain ⟨v, hv⟩ := Option.isSome_iff_exists.mp hq
  obtain ⟨s, hs, _⟩ := fromString_eq_some.mp hv
  rw [List.foldlM_append, Option.bind_eq_bind, Option.bind_eq_some_iff] at hs
  obtain ⟨u, hu, _⟩ := hs
  exact Option.isSome_iff_exists.mpr ⟨_, fromString_eq_some.mpr ⟨u, hu, rfl⟩⟩

theorem accepted_iff_beginning (t : Text) : (Ipv4Addr.fromString t).isSome ↔
    ∃ q a b c d, DottedQuad q a b c d ∧ t <+: q := by
  constructor
  · intro h
    obtain ⟨v, hv⟩ := Option.isSome_iff_exists.mp h
    rw [fromString_eq_readDotted, readDotted, readPieces_eq_some] at hv
    obtain ⟨hfull, hlast, hlen, _⟩ := hv
    have hquad := joined_prefix_quad hfull hlast hlen
    rwa [joined_pieces] at hquad
  · rintro ⟨q, a, b, c, d, hquad, hprefix⟩
    exact accepted_of_beginning hprefix (by rw [fromString_quad hquad]; rfl)

theorem length_le_of_dottedQuad {q a b c d : Text} (h : DottedQuad q a b c d) :
    q.length ≤ 15 := by
  have ha := h.first.short
  have hb := h.second.short
  have hc := h.third.short
  have hd := h.fourth.short
  rw [h.text]
  simp only [List.length_append, List.length_cons]
  omega

/-- On every text the scanner is the reader that takes missing octets for zero. It accepts
the beginnings of dotted quads and nothing else, so no text of more than fifteen characters. -/
theorem scanner_reads (t : Text) : Ipv4Addr.fromString t = readDotted t ∧
    ((Ipv4Addr.fromString t).isSome ↔ ∃ q a b c d, DottedQuad q a b c d ∧ t <+: q) ∧
    ((Ipv4Addr.fromString t).isSome → t.length ≤ 15) := by
  refine ⟨fromString_eq_readDotted t, accepted_iff_beginning t, ?_⟩
  intro h
  obtain ⟨q, a, b, c, d, hquad, hprefix⟩ := (accepted_iff_beginning t).mp h
  exact hprefix.length_le.trans (length_le_of_dottedQuad hquad)

end NetIpv4Reader
