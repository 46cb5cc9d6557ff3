import Laio.LibLoops
import Laio.LibWords
import Mathlib.Algebra.Group.Nat.Even
import Mathlib.Data.List.FinRange

/-! # `Ipv6Addr`: storage, segments, comparison, classes and text

The address is the byte array of the Windows union; words are its little-endian view.
An access outside the local segment array is undefined, so the formatter is partial
exactly there. -/
namespace NetIpv6Addr

open LibLoops LibWords

abbrev Text := List Char

/-- The replacement fields `{}` and `{:x}` of `fmt::format` on unsigned integers. -/
structure Fmt where
  dec : ℕ → Text
  hex : ℕ → Text

/-- What the formatting library documents: decimal, and lower-case hexadecimal without
prefix, both without padding. -/
structure Fmt.Documented (fmt : Fmt) : Prop where
  dec_eq : ∀ n, fmt.dec n = Nat.toDigits 10 n
  hex_eq : ∀ n, fmt.hex n = Nat.toDigits 16 n

def Fmt.standard : Fmt := ⟨Nat.toDigits 10, Nat.toDigits 16⟩

theorem Fmt.standard_documented : Fmt.standard.Documented := ⟨fun _ => rfl, fun _ => rfl⟩

structure In6Addr where
  byte : Vector UInt8 16

def In6Addr.word (u : In6Addr) (i : Fin 8) : UInt16 :=
  leWord (u.byte.get ⟨2 * i.val, by omega⟩) (u.byte.get ⟨2 * i.val + 1, by omega⟩)

structure Ipv6Addr where
  rawIpv6Address : In6Addr

def Ipv6Addr.ofBytes (a b c d e f g h i j k l m n o p : UInt8) : Ipv6Addr :=
  ⟨⟨#v[a, b, c, d, e, f, g, h, i, j, k, l, m, n, o, p]⟩⟩

def Ipv6Addr.ofSegments (a b c d e f g h : UInt16) : Ipv6Addr :=
  .ofBytes (highByte a) (lowByte a) (highByte b) (lowByte b) (highByte c) (lowByte c)
    (highByte d) (lowByte d) (highByte e) (lowByte e) (highByte f) (lowByte f)
    (highByte g) (lowByte g) (highByte h) (lowByte h)

/-- `operator==` compares the raw words one by one. -/
instance : BEq Ipv6Addr where
  beq lhs rhs := (List.finRange 8).all fun i =>
    lhs.rawIpv6Address.word i == rhs.rawIpv6Address.word i

def Ipv6Addr.segments (addr : Ipv6Addr) :
    UInt16 × UInt16 × UInt16 × UInt16 × UInt16 × UInt16 × UInt16 × UInt16 :=
  let word := addr.rawIpv6Address.word
  (byteSwap (word 0), byteSwap (word 1), byteSwap (word 2), byteSwap (word 3),
    byteSwap (word 4), byteSwap (word 5), byteSwap (word 6), byteSwap (word 7))

/-- `operator<` is the comparison of the standard library on tuples: lexicographic. -/
def Ipv6Addr.lt (lhs rhs : Ipv6Addr) : Bool :=
  let (a, b, c, d, e, f, g, h) := lhs.segments
  let (a', b', c', d', e', f', g', h') := rhs.segments
  [a, b, c, d, e, f, g, h] < [a', b', c', d', e', f', g', h']

inductive Ipv6MulticastScope where
  | interfaceLocal
  | linkLocal
  | realmLocal
  | adminLocal
  | siteLocal
  | organizationLocal
  | global
  deriving DecidableEq, Repr

namespace Ipv6Addr

variable (addr : Ipv6Addr)

def maskedFirst (mask base : UInt16) : Bool := addr.rawIpv6Address.word 0 &&& mask == base

def isMulticast : Bool := addr.maskedFirst 0x00ff 0x00ff

def multicastScope : Option Ipv6MulticastScope :=
  if addr.isMulticast then
    let scope := addr.rawIpv6Address.word 0 &&& 0x0f00
    if scope = 0x0100 then some .interfaceLocal
    else if scope = 0x0200 then some .linkLocal
    else if scope = 0x0300 then some .realmLocal
    else if scope = 0x0400 then some .adminLocal
    else if scope = 0x0500 then some .siteLocal
    else if scope = 0x0800 then some .organizationLocal
    else if scope = 0x0e00 then some .global
    else none
  else
    none

def isUnspecified : Bool := (List.finRange 8).all fun i => addr.rawIpv6Address.word i == 0

def isLoopback : Bool :=
  ((List.finRange 7).all fun i => addr.rawIpv6Address.word i.castSucc == 0) &&
    addr.rawIpv6Address.word 7 == 0x0100

def isUniqueLocal : Bool := addr.maskedFirst 0x00fe 0x00fc

def isUnicastLinkLocalStrict : Bool :=
  addr.rawIpv6Address.word 0 == 0x80fe && addr.rawIpv6Address.word 1 == 0 &&
    addr.rawIpv6Address.word 2 == 0 && addr.rawIpv6Address.word 3 == 0

def isUnicastLinkLocal : Bool := addr.maskedFirst 0xc0ff 0x80fe

def isUnicastSiteLocal : Bool := addr.maskedFirst 0xc0ff 0xc0fe

def isDocumentation : Bool :=
  addr.rawIpv6Address.word 0 == 0x0120 && addr.rawIpv6Address.word 1 == 0xb80d

def isUnicastGlobal : Bool :=
  !addr.isMulticast && !addr.isLoopback && !addr.isUnicastLinkLocal && !addr.isUniqueLocal &&
    !addr.isUnspecified && !addr.isDocumentation

def isGlobal : Bool := addr.multicastScope == some .global || addr.isUnicastGlobal

end Ipv6Addr

theorem In6Addr.ext_word {u v : In6Addr} (h : ∀ i, u.word i = v.word i) : u = v := by
  obtain ⟨u⟩ := u
  obtain ⟨v⟩ := v
  congr 1
  apply Vector.ext
  intro i hi
  obtain ⟨k, rfl | rfl⟩ := Nat.even_or_odd' i
  · exact (leWord_inj.mp (h ⟨k, by omega⟩)).1
  · exact (leWord_inj.mp (h ⟨k, by omega⟩)).2

theorem Ipv6Addr.beq_iff_word (lhs rhs : Ipv6Addr) :
    (lhs == rhs) = true ↔ ∀ i, lhs.rawIpv6Address.word i = rhs.rawIpv6Address.word i := by
  simp [BEq.beq, List.all_eq_true]

instance : LawfulBEq Ipv6Addr where
  eq_of_beq {lhs rhs} h := by
    have hraw := In6Addr.ext_word ((Ipv6Addr.beq_iff_word lhs rhs).mp h)
    cases lhs; cases rhs; simpa using hraw
  rfl {addr} := (Ipv6Addr.beq_iff_word addr addr).mpr fun _ => rfl

theorem Ipv6Addr.segments_injective : Function.Injective Ipv6Addr.segments := by
  intro lhs rhs h
  simp only [segments, Prod.mk.injEq, byteSwap_injective.eq_iff] at h
  obtain ⟨h0, h1, h2, h3, h4, h5, h6, h7⟩ := h
  apply eq_of_beq ((beq_iff_word lhs rhs).mpr _)
  intro i
  match i with
  | 0 => exact h0
  | 1 => exact h1
  | 2 => exact h2
  | 3 => exact h3
  | 4 => exact h4
  | 5 => exact h5
  | 6 => exact h6
  | 7 => exact h7

@[simp] theorem Ipv6Addr.segments_ofBytes (a b c d e f g h i j k l m n o p : UInt8) :
    (ofBytes a b c d e f g h i j k l m n o p).segments =
      (leWord b a, leWord d c, leWord f e, leWord h g,
        leWord j i, leWord l k, leWord n m, leWord p o) := by
  simp only [segments, In6Addr.word, ofBytes, byteSwap_leWord]
  rfl

@[simp] theorem Ipv6Addr.segments_ofSegments (a b c d e f g h : UInt16) :
    (ofSegments a b c d e f g h).segments = (a, b, c, d, e, f, g, h) := by
  simp [ofSegments]

theorem Ipv6Addr.exists_ofSegments (addr : Ipv6Addr) :
    ∃ a b c d e f g h, addr = ofSegments a b c d e f g h := by
  rcases hs : addr.segments with ⟨a, b, c, d, e, f, g, h⟩
  exact ⟨a, b, c, d, e, f, g, h, segments_injective (by rw [hs, segments_ofSegments])⟩

theorem Ipv6Addr.ofSegments_inj {a b c d e f g h a' b' c' d' e' f' g' h' : UInt16} :
    ofSegments a b c d e f g h = ofSegments a' b' c' d' e' f' g' h' ↔
      a = a' ∧ b = b' ∧ c = c' ∧ d = d' ∧ e = e' ∧ f = f' ∧ g = g' ∧ h = h' := by
  rw [← segments_injective.eq_iff]
  simp

theorem Ipv6Addr.word_ofSegments (a b c d e f g h : UInt16) (i : Fin 8) :
    (ofSegments a b c d e f g h).rawIpv6Address.word i =
      byteSwap (#v[a, b, c, d, e, f, g, h].get i) := by
  have hs : (ofSegments a b c d e f g h).segments = (a, b, c, d, e, f, g, h) :=
    segments_ofSegments ..
  simp only [segments, Prod.mk.injEq] at hs
  apply byteSwap_injective
  rw [byteSwap_byteSwap]
  obtain ⟨h0, h1, h2, h3, h4, h5, h6, h7⟩ := hs
  match i with
  | 0 => exact h0
  | 1 => exact h1
  | 2 => exact h2
  | 3 => exact h3
  | 4 => exact h4
  | 5 => exact h5
  | 6 => exact h6
  | 7 => exact h7

/-- The counters of the zero-segment scan; none of them exceeds eight. -/
structure ZeroSpan where
  zeroSpanLen : ℕ
  zeroSpanAt : ℕ
  curSpanLen : ℕ
  curSpanAt : ℕ
  deriving DecidableEq, Repr

def scanStep (segments : List UInt16) (s : ZeroSpan) (i : ℕ) : Option ZeroSpan := do
  let segment ← segments[i]?
  if segment = 0 then
    let curSpanAt := if s.curSpanLen = 0 then i else s.curSpanAt
    let curSpanLen := s.curSpanLen + 1
    if s.zeroSpanLen < curSpanLen then
      some ⟨curSpanLen, curSpanAt, curSpanLen, curSpanAt⟩
    else
      some { s with curSpanLen := curSpanLen, curSpanAt := curSpanAt }
  else
    some { s with curSpanLen := 0, curSpanAt := 0 }

def scanZeroSpan (segments : List UInt16) : Option ZeroSpan :=
  forLoop 0 8 (scanStep segments) ⟨0, 0, 0, 0⟩

variable (fmt : Fmt)

/-- `fmt::format("{}.{}.{}.{}", a, b, c, d)` -/
def formatQuad (a b c d : UInt8) : Text :=
  fmt.dec a.toNat ++ '.' :: fmt.dec b.toNat ++ '.' :: fmt.dec c.toNat ++ '.' :: fmt.dec d.toNat

/-- `builder << fmt::format(":{:x}", segments[i])` -/
def emitSegment (segments : List UInt16) (builder : Text) (i : ℕ) : Option Text := do
  let segment ← segments[i]?
  some (builder ++ ':' :: fmt.hex segment.toNat)

def formatCompressed (segments : List UInt16) (zeroSpanAt zeroSpanLen : ℕ) : Option Text := do
  let leading ← (
    if zeroSpanAt ≠ 0 then do
      let segment ← segments[0]?
      forLoop 1 zeroSpanAt (emitSegment fmt segments) (fmt.hex segment.toNat)
    else
      some [])
  let builder := leading ++ [':', ':']
  let i := zeroSpanAt + zeroSpanLen
  if i < 8 then do
    let segment ← segments[i]?
    forLoop (i + 1) 8 (emitSegment fmt segments) (builder ++ fmt.hex segment.toNat)
  else
    some builder

/-- `operator std::string`. Neither special case tests the sixth segment, so both are taken
for IPv4-mapped addresses as well. -/
def Ipv6Addr.toStdString (addr : Ipv6Addr) : Option Text :=
  let (a, b, c, d, e, f, g, h) := addr.segments
  if a = 0 ∧ b = 0 ∧ c = 0 ∧ d = 0 ∧ e = 0 ∧ (f = 0 ∨ f = 0xffff) then
    if g = 0 ∧ h = 0 then
      some [':', ':']
    else if g = 0 ∧ h = 1 then
      some [':', ':', '1']
    else if f = 0 then
      some ([':', ':'] ++ formatQuad fmt (highByte g) (lowByte g) (highByte h) (lowByte h))
    else
      some ([':', ':', 'f', 'f', 'f', 'f', ':'] ++
        formatQuad fmt (highByte g) (lowByte g) (highByte h) (lowByte h))
  else do
    let segments := [a, b, c, d, e, f, g, h]
    let span ← scanZeroSpan segments
    if 1 < span.zeroSpanLen then
      formatCompressed fmt segments span.zeroSpanAt span.zeroSpanLen
    else
      some (fmt.hex a.toNat ++ ':' :: fmt.hex b.toNat ++ ':' :: fmt.hex c.toNat ++
        ':' :: fmt.hex d.toNat ++ ':' :: fmt.hex e.toNat ++ ':' :: fmt.hex f.toNat ++
        ':' :: fmt.hex g.toNat ++ ':' :: fmt.hex h.toNat)

end NetIpv6Addr
