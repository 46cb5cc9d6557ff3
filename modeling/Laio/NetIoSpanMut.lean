import Laio.LibExecutions
import Mathlib.Algebra.Group.Nat.Even

/-! # `IoSpanMut`: advancing through a buffer

A span is a start and a 32-bit length. The bound that `advance` checks is the size of the
length field and not the length. -/
namespace NetIoSpanMut

open LibExecutions

abbrev Addr := ℕ

structure WSABUF where
  len : UInt32
  buf : Addr
  deriving DecidableEq, Repr

structure IoSpanMut where
  rawWsaBuffer : WSABUF
  deriving DecidableEq, Repr

namespace IoSpanMut

/-- The size of the element stands where the length of the array was meant. -/
def create (buf : Addr) : IoSpanMut := ⟨⟨1, buf⟩⟩

/-- `sizeof(_raw_wsa_buffer.len)` -/
def sizeofLen : UInt64 := 4

/-- The result of the call, and the object after it. -/
def advance (x : IoSpanMut) (n : UInt64) : Except String Unit × IoSpanMut :=
  if sizeofLen < n then
    (.error "Advancing out of range", x)
  else
    (.ok (), ⟨⟨x.rawWsaBuffer.len - n.toUInt32, x.rawWsaBuffer.buf + n.toNat⟩⟩)

/-- The start and the length of the span; the length is cast to a signed integer. The span is
of a library outside the repository: assumed is its documented precondition that no length
is negative, and termination where it is violated. -/
def asSpan (x : IoSpanMut) : Option (Addr × ℕ) :=
  let len := x.rawWsaBuffer.len.toInt32
  if len < 0 then none else some (x.rawWsaBuffer.buf, len.toInt.toNat)

def asMutSpan (x : IoSpanMut) : Option (Addr × ℕ) := x.asSpan

end IoSpanMut

structure Call where
  before : IoSpanMut
  n : UInt64
  result : Except String Unit
  after : IoSpanMut

def Call.Succeeds (c : Call) : Prop := c.result = .ok ()

instance (c : Call) : Decidable c.Succeeds :=
  match h : c.result with
  | .ok () => isTrue h
  | .error _ => isFalse (by rw [Call.Succeeds, h]; exact nofun)

/-- A call succeeds exactly if it stays in the buffer. Then it moves the start and shortens
the length; otherwise it changes nothing. -/
structure Call.Conforms (c : Call) : Prop where
  succeeds_iff : c.Succeeds ↔ c.n.toNat ≤ c.before.rawWsaBuffer.len.toNat
  moves : c.Succeeds → c.after.rawWsaBuffer.buf = c.before.rawWsaBuffer.buf + c.n.toNat ∧
    c.after.rawWsaBuffer.len.toNat + c.n.toNat = c.before.rawWsaBuffer.len.toNat
  unchanged : ¬c.Succeeds → c.after = c.before

structure State where
  span : IoSpanMut
  calls : List Call

def called (x : IoSpanMut) (n : UInt64) : Call := ⟨x, n, (x.advance n).1, (x.advance n).2⟩

def Step (s : State) (n : UInt64) (t : State) : Prop :=
  t = ⟨(s.span.advance n).2, s.calls ++ [called s.span n]⟩

def start (len : UInt32) (buf : Addr) : State := ⟨⟨⟨len, buf⟩⟩, []⟩

def advanced : List Call → ℕ
  | [] => 0
  | c :: calls => (if c.Succeeds then c.n.toNat else 0) + advanced calls

structure StaysInside (len : UInt32) (buf : Addr) (s : State) : Prop where
  conforms : ∀ c ∈ s.calls, c.Conforms
  start_eq : s.span.rawWsaBuffer.buf = buf + advanced s.calls
  advanced_le : advanced s.calls ≤ len.toNat
  length_eq : s.span.rawWsaBuffer.len.toNat = len.toNat - advanced s.calls

/-- The bound that is checked and the length allow the call, or both refuse it. -/
def BoundAgrees (s : State) (n : UInt64) : Prop :=
  n.toNat ≤ 4 ↔ n.toNat ≤ s.span.rawWsaBuffer.len.toNat

theorem advance_of_le {x : IoSpanMut} {n : UInt64} (h : n.toNat ≤ 4) : x.advance n =
    (.ok (), ⟨⟨x.rawWsaBuffer.len - n.toUInt32, x.rawWsaBuffer.buf + n.toNat⟩⟩) := by
  rw [IoSpanMut.advance, if_neg]
  rw [UInt64.lt_iff_toNat_lt]
  exact Nat.not_lt.mpr h

theorem advance_of_lt {x : IoSpanMut} {n : UInt64} (h : 4 < n.toNat) :
    x.advance n = (.error "Advancing out of range", x) := by
  rw [IoSpanMut.advance, if_pos]
  exact UInt64.lt_iff_toNat_lt.mpr h

theorem called_succeeds_iff (x : IoSpanMut) (n : UInt64) :
    (called x n).Succeeds ↔ n.toNat ≤ 4 := by
  rw [Call.Succeeds, called]
  by_cases h : n.toNat ≤ 4
  · rw [advance_of_le h]
    exact iff_of_true rfl h
  · rw [advance_of_lt (by omega)]
    exact iff_of_false nofun h

theorem advanced_concat (calls : List Call) (c : Call) :
    advanced (calls ++ [c]) = advanced calls + if c.Succeeds then c.n.toNat else 0 := by
  induction calls with
  | nil => simp [advanced]
  | cons d calls ih =>
    rw [List.cons_append, advanced, advanced, ih, Nat.add_assoc]

theorem narrowed_sub {len : UInt32} {n : UInt64} (h : n.toNat ≤ len.toNat) :
    (len - n.toUInt32).toNat = len.toNat - n.toNat := by
  have hn : n.toUInt32.toNat = n.toNat := by
    rw [UInt64.toNat_toUInt32]
    exact Nat.mod_eq_of_lt (Nat.lt_of_le_of_lt h len.toNat_lt)
  rw [UInt32.toNat_sub_of_le _ _ (by rw [UInt32.le_iff_toNat_le, hn]; exact h), hn]

theorem called_conforms_iff (s : State) (n : UInt64) :
    (called s.span n).Conforms ↔ BoundAgrees s n := by
  constructor
  · intro h
    exact (called_succeeds_iff s.span n).symm.trans h.succeeds_iff
  · intro h
    refine ⟨(called_succeeds_iff s.span n).trans h, ?_, ?_⟩
    · intro hok
      have hle := (called_succeeds_iff s.span n).mp hok
      have hlen := h.mp hle
      simp only [called, advance_of_le hle, narrowed_sub hlen, true_and]
      omega
    · intro hno
      rw [called_succeeds_iff] at hno
      simp only [called, advance_of_lt (by omega : 4 < n.toNat)]

theorem staysInside_step {len : UInt32} {buf : Addr} {s t : State} {n : UInt64}
    (h : StaysInside len buf s) (hs : Step s n t) : StaysInside len buf t ↔ BoundAgrees s n := by
  subst hs
  rw [← called_conforms_iff]
  constructor
  · intro ht
    exact ht.conforms _ (by simp)
  · intro hc
    have hadv := advanced_concat s.calls (called s.span n)
    have hstart := h.start_eq
    have hle := h.advanced_le
    have hlen := h.length_eq
    have hcalls : ∀ c ∈ s.calls ++ [called s.span n], c.Conforms := by
      intro c hmem
      rcases List.mem_append.mp hmem with hold | hnew
      · exact h.conforms c hold
      · rw [List.mem_singleton.mp hnew]
        exact hc
    by_cases hok : (called s.span n).Succeeds
    · obtain ⟨hbuf, hshort⟩ := hc.moves hok
      have hn : (called s.span n).n = n := rfl
      have hbefore : (called s.span n).before = s.span := rfl
      rw [if_pos hok, hn] at hadv
      rw [hn, hbefore] at hbuf hshort
      refine ⟨hcalls, ?_, ?_, ?_⟩
      · exact hbuf.trans (by rw [hadv, hstart, Nat.add_assoc])
      · rw [hadv]
        omega
      · change (called s.span n).after.rawWsaBuffer.len.toNat = _
        rw [hadv]
        omega
    · have hsame : (s.span.advance n).2 = s.span := hc.unchanged hok
      rw [if_neg hok, Nat.add_zero] at hadv
      refine ⟨hcalls, ?_, ?_, ?_⟩
      · rw [hadv, hsame, hstart]
      · rw [hadv]
        exact hle
      · rw [hadv, hsame, hlen]

theorem staysInside_start (len : UInt32) (buf : Addr) : StaysInside len buf (start len buf) :=
  ⟨fun _ hc => (List.not_mem_nil hc).elim, rfl, Nat.zero_le _, rfl⟩

theorem StaysInside.asSpan {len : UInt32} {buf : Addr} {s : State} (h : StaysInside len buf s)
    (hlen : len.toNat < 2 ^ 31) :
    s.span.asSpan = some (buf + advanced s.calls, len.toNat - advanced s.calls) ∧
      s.span.asMutSpan = s.span.asSpan := by
  refine ⟨?_, rfl⟩
  have hbound : s.span.rawWsaBuffer.len.toNat < 2 ^ 31 := by
    rw [h.length_eq]
    omega
  have hcast : s.span.rawWsaBuffer.len.toInt32.toInt = s.span.rawWsaBuffer.len.toNat := by
    have hofNat := UInt32.toInt32_ofNat' (n := s.span.rawWsaBuffer.len.toNat)
    rw [UInt32.ofNat_toNat] at hofNat
    rw [hofNat, Int32.toInt_ofNat_of_lt hbound]
  rw [IoSpanMut.asSpan, if_neg, hcast, h.start_eq, h.length_eq]
  · rfl
  · rw [Int32.lt_iff_toInt_lt, hcast]
    exact Int.not_lt.mpr (Int.natCast_nonneg _)

/-- After any calls the span stays inside its buffer, exactly if at each call the size of
the length field and the length agree on the bound. -/
theorem stays_inside_iff (len : UInt32) (buf : Addr) (ns : List UInt64) :
    HoldsAlong Step (StaysInside len buf) (start len buf) ns ↔
      MeetsAlong Step BoundAgrees (start len buf) ns :=
  holdsAlong_iff_meetsAlong (fun _ => True) (fun _ _ _ _ _ => trivial)
    (fun _ _ _ _ h hs => staysInside_step h hs) trivial (staysInside_start len buf)

theorem advance_wraps : ¬HoldsAlong Step (StaysInside 1 0) ⟨.create 0, []⟩ [4] := by
  intro h
  have hin := h [4] _ (List.prefix_refl _) (.single rfl)
  exact absurd hin.length_eq (by decide)

end NetIoSpanMut
