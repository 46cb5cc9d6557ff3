import Laio.IocpOwnership
import Laio.IocpRecording
import Laio.LibTraces

/-! # The system calls of the wrappers in time

Ownership and input and output are interleaved in any way. Every raw handle that a wrapper
passes to the system is recorded, together with what was closed and what was extracted. -/
namespace IocpTrace

open LibExecutions LibTraces IocpHandle IocpCompletion IocpTransfer IocpRecording IocpOwnership

inductive Entry where
  | named (handle : HANDLE)
  | closed (handle : HANDLE)
  | handedOut (handle : HANDLE)
  deriving DecidableEq, Repr

def Entry.handle : Entry → HANDLE
  | .named handle => handle
  | .closed handle => handle
  | .handedOut handle => handle

/-- Closing a raw handle and extracting it end it for the wrappers; null is no handle. -/
def entries : Alphabet Entry HANDLE where
  names e := if e.handle = nullptr then none else some e.handle
  ends
    | .named _ => False
    | .closed _ => True
    | .handedOut _ => True

theorem names_eq_some {e : Entry} {h : HANDLE} :
    entries.names e = some h ↔ e.handle = h ∧ h ≠ nullptr := by
  simp only [entries, Option.ite_none_left_eq_some, Option.some.injEq]
  constructor
  · rintro ⟨hne, rfl⟩
    exact ⟨rfl, hne⟩
  · rintro ⟨rfl, hne⟩
    exact ⟨hne, rfl⟩

section Recorders

variable {κ ε : Type*}

def fileNames : FileCall κ → List HANDLE
  | .submit _ this _ _ => [this]
  | .query this _ => [this]

/-- Of an association, the port: the object that is added comes from the caller. -/
def portNames : PortCall → List HANDLE
  | .create port => [port]
  | .post port => [port]
  | .get port _ => [port]
  | .getEx port _ _ => [port]

def namedFiles (fs : FileSystem κ ε) : FileSystem (κ × List HANDLE) ε := recordFiles fileNames fs

def namedPorts (sys : System κ ε) : System (κ × List HANDLE) ε := recordPorts portNames sys

def namedCreate (create : Create κ) : Create (κ × List HANDLE) := recordCreate portNames create

end Recorders

inductive Io where
  | read (buf : Span)
  | write (buf : Span)
  | readOverlapped (buf : Span) (overlapped : LPOVERLAPPED)
  | readOverlappedWait (buf : Span) (overlapped : LPOVERLAPPED)
  | writeOverlapped (buf : Span) (overlapped : LPOVERLAPPED)
  | writeOverlappedWait (buf : Span) (overlapped : LPOVERLAPPED)
  | addSocket (token : UInt64) (rawSocket : HANDLE)
  | post (status : CompletionStatus)
  | get (timeout : Option Int64)
  | getMany (list : List CompletionStatus) (timeout : Option Int64)

def Io.kind : Io → Kind
  | .addSocket .. | .post .. | .get .. | .getMany .. => .completionPort
  | _ => .handle

variable {κ ε : Type*} (fs : FileSystem κ ε) (sys : System κ ε) (create : Create κ)

/-- The kernel after a call through a wrapper with the raw handle `this`, and the raw handles
that it was given on the way; `none` if the call does not return. -/
def Io.perform (this : HANDLE) (k : κ × List HANDLE) : Io → Option (κ × List HANDLE)
  | .read buf => some (Handle.read (namedFiles fs) this k buf).2
  | .write buf => some (Handle.write (namedFiles fs) this k buf).2
  | .readOverlapped buf overlapped =>
    some (Handle.readOverlapped (namedFiles fs) this k buf overlapped).2
  | .readOverlappedWait buf overlapped =>
    (Handle.readOverlappedWait (namedFiles fs) this k buf overlapped).map Prod.snd
  | .writeOverlapped buf overlapped =>
    some (Handle.writeOverlapped (namedFiles fs) this k buf overlapped).2
  | .writeOverlappedWait buf overlapped =>
    (Handle.writeOverlappedWait (namedFiles fs) this k buf overlapped).map Prod.snd
  | .addSocket token rawSocket =>
    some (CompletionPort.addSocket (namedPorts sys) (namedCreate create) ⟨this⟩ k token
      rawSocket).2
  | .post status => some (CompletionPort.post (namedPorts sys) ⟨this⟩ k status).2
  | .get timeout => some (CompletionPort.get (namedPorts sys) ⟨this⟩ k timeout).2
  | .getMany list timeout =>
    (CompletionPort.getMany (namedPorts sys) ⟨this⟩ k list timeout).map (·.2.2)

def Only (this : HANDLE) (names : List HANDLE) : Prop := ∀ h ∈ names, h = this

variable {fs sys create}

theorem Only.concat {this : HANDLE} {names : List HANDLE} (h : Only this names) :
    Only this (names ++ [this]) := by
  intro x hx
  rcases List.mem_append.mp hx with hx | hx
  · exact h x hx
  · exact List.mem_singleton.mp hx

section Calls

variable {this : HANDLE} {k : κ} {names : List HANDLE} (h : Only this names)

include h

theorem only_transfer (d : Direction) (buf : Span) :
    Only this (Handle.transfer (namedFiles fs) (submitOf (namedFiles fs) d) this (k, names)
      buf).2.2 := by
  rw [namedFiles, transfer_record]
  exact h.concat

theorem only_overlappedHelper (d : Direction) (buf : Span) (overlapped : LPOVERLAPPED)
    (wait : BOOLEAN) :
    Only this (Handle.overlappedHelper (namedFiles fs) (submitOf (namedFiles fs) d) this (k, names)
      buf overlapped wait).2.2 := by
  rw [namedFiles, overlappedHelper_record fileNames names rfl rfl]
  split
  · rw [List.append_nil]
    exact h.concat
  · exact h.concat.concat

theorem only_perform {io : Io} {k' : κ} {names' : List HANDLE}
    (hp : io.perform fs sys create this (k, names) = some (k', names')) : Only this names' := by
  have hreturns : ∀ {r : κ × List HANDLE}, some r = some (k', names') → Only this r.2 →
      Only this names' := by
    rintro r ⟨⟩ hr
    exact hr
  have hwaits : ∀ {res : Result ε (Option UInt64) × κ × List HANDLE},
      (Handle.unwrapped res).map Prod.snd = some (k', names') → Only this res.2.2 →
        Only this names' := by
    intro res hres hr
    obtain ⟨r, hr', hk⟩ := Option.map_eq_some_iff.mp hres
    rw [← Handle.unwrapped_state hr', hk] at hr
    exact hr
  cases io with
  | read buf => exact hreturns hp (only_transfer h .read buf)
  | write buf => exact hreturns hp (only_transfer h .write buf)
  | readOverlapped buf overlapped =>
    exact hreturns hp (only_overlappedHelper h .read buf overlapped FALSE)
  | readOverlappedWait buf overlapped =>
    exact hwaits hp (only_overlappedHelper h .read buf overlapped TRUE)
  | writeOverlapped buf overlapped =>
    exact hreturns hp (only_overlappedHelper h .write buf overlapped FALSE)
  | writeOverlappedWait buf overlapped =>
    exact hwaits hp (only_overlappedHelper h .write buf overlapped TRUE)
  | addSocket token rawSocket =>
    refine hreturns hp ?_
    rw [CompletionPort.addSocket, namedPorts, namedCreate, add_record]
    exact h.concat
  | post status =>
    refine hreturns hp ?_
    rw [namedPorts, post_record]
    exact h.concat
  | get timeout =>
    refine hreturns hp ?_
    rw [namedPorts, get_record]
    exact h.concat
  | getMany list timeout =>
    obtain ⟨r, hr, hk⟩ := Option.map_eq_some_iff.mp hp
    rw [namedPorts, getMany_record] at hr
    obtain ⟨_, _, rfl⟩ := Option.map_eq_some_iff.mp hr
    obtain ⟨_, rfl⟩ := Prod.mk.inj hk
    exact h.concat

end Calls

structure Machine (κ : Type*) where
  world : World
  kernel : κ
  trace : List Entry

inductive Event where
  | own (e : IocpHandle.Event)
  | io (a : Addr) (io : Io)

variable (fs sys create)

def settled (c x : List HANDLE) : List Entry := c.map Entry.closed ++ x.map Entry.handedOut

/-- A step on the wrappers records what it closes and hands out, in some order; a call is
made through a live wrapper of its class. -/
inductive Step : Machine κ → Event → Machine κ → Prop where
  | own {m e w} {c x : List HANDLE} : IocpHandle.Step m.world e w → w.closed = ↑c + m.world.closed →
      w.extracted = ↑x + m.world.extracted →
      Step m (.own e) ⟨w, m.kernel, m.trace ++ settled c x⟩
  | io {m a io k names} : m.world.At io.kind a →
      io.perform fs sys create (m.world.rawHandle a) (m.kernel, []) = some (k, names) →
      Step m (.io a io) ⟨m.world, k, m.trace ++ names.map Entry.named⟩

def start (k : κ) : Machine κ := ⟨initial, k, []⟩

theorem map_handle_settled (c x : List HANDLE) : (settled c x).map Entry.handle = c ++ x := by
  simp [settled, Function.comp_def, Entry.handle]

theorem closed_mem_settled {c x : List HANDLE} {h : HANDLE} :
    .closed h ∈ settled c x ↔ h ∈ c := by
  simp [settled]

theorem handedOut_mem_settled {c x : List HANDLE} {h : HANDLE} :
    .handedOut h ∈ settled c x ↔ h ∈ x := by
  simp [settled]

theorem settled_separate {w : World} (h : Accounted w) :
    (w.closed + w.extracted).Nodup ∧
      ∀ a ∈ w.live, w.rawHandle a ≠ nullptr → w.rawHandle a ∉ w.closed + w.extracted := by
  obtain ⟨L, hL⟩ := h.ledger
  obtain ⟨hnodup, hdisjoint⟩ := L.settled_separate
  rw [hL.closed, hL.extracted] at hnodup hdisjoint
  rw [hL.held] at hdisjoint
  refine ⟨hnodup, fun a ha hne => ?_⟩
  exact Multiset.disjoint_left.mp hdisjoint (mem_held.mpr ⟨hne, a, ha, rfl⟩)

structure Recorded (m : Machine κ) : Prop where
  accounted : Accounted m.world
  closed : ∀ h, .closed h ∈ m.trace ↔ h ∈ m.world.closed
  handedOut : ∀ h, .handedOut h ∈ m.trace ↔ h ∈ m.world.extracted
  safe : entries.Safe m.trace

theorem recorded_start (k : κ) : Recorded (start k) where
  accounted := accounted_initial
  closed h := by simp [start, initial]
  handedOut h := by simp [start, initial]
  safe := Alphabet.safe_nil

theorem Recorded.ended {m : Machine κ} (hm : Recorded m) {h : HANDLE}
    (he : entries.Ended m.trace h) : h ∈ m.world.closed + m.world.extracted := by
  obtain ⟨e, hmem, hends, hnames⟩ := he
  obtain ⟨rfl, _⟩ := names_eq_some.mp hnames
  rw [Multiset.mem_add]
  cases e with
  | named h => exact hends.elim
  | closed h => exact Or.inl ((hm.closed h).mp hmem)
  | handedOut h => exact Or.inr ((hm.handedOut h).mp hmem)

variable {fs sys create}

theorem recorded_own {m : Machine κ} {e : IocpHandle.Event} {w : World} {c x : List HANDLE}
    (hm : Recorded m) (hs : IocpHandle.Step m.world e w) (hc : w.closed = ↑c + m.world.closed)
    (hx : w.extracted = ↑x + m.world.extracted) :
    Recorded ⟨w, m.kernel, m.trace ++ settled c x⟩ := by
  have haccounted := accounted_step m.world e w hm.accounted hs
  have hsplit : w.closed + w.extracted = ↑(c ++ x) + (m.world.closed + m.world.extracted) := by
    rw [hc, hx, ← Multiset.coe_add]
    abel
  have hnodup := (settled_separate haccounted).1
  rw [hsplit, Multiset.nodup_add, Multiset.coe_nodup] at hnodup
  obtain ⟨hnew, _, hold⟩ := hnodup
  refine ⟨haccounted, fun h => ?_, fun h => ?_, hm.safe.append ?_ ?_⟩
  · change _ ↔ h ∈ w.closed
    rw [hc, Multiset.mem_add, Multiset.mem_coe, List.mem_append, hm.closed, closed_mem_settled,
      or_comm]
  · change _ ↔ h ∈ w.extracted
    rw [hx, Multiset.mem_add, Multiset.mem_coe, List.mem_append, hm.handedOut,
      handedOut_mem_settled, or_comm]
  · refine Alphabet.safe_of_nodup (f := Entry.handle) ?_ ?_
    · intro e _ a ha
      exact (names_eq_some.mp ha).1.symm
    · rw [map_handle_settled]
      exact hnew
  · intro e he a ha hended
    have hmem : a ∈ c ++ x := by
      rw [← map_handle_settled c x, ← (names_eq_some.mp ha).1]
      exact List.mem_map_of_mem he
    exact Multiset.disjoint_left.mp hold (Multiset.mem_coe.mpr hmem) (hm.ended hended)

theorem recorded_io {m : Machine κ} {a : Addr} {io : Io} {k : κ} {names : List HANDLE}
    (hm : Recorded m) (ha : m.world.At io.kind a)
    (hp : io.perform fs sys create (m.world.rawHandle a) (m.kernel, []) = some (k, names)) :
    Recorded ⟨m.world, k, m.trace ++ names.map Entry.named⟩ := by
  have honly := only_perform (fun h hh => absurd hh List.not_mem_nil) hp
  have hends : ∀ e ∈ names.map Entry.named, ¬entries.ends e := by
    intro e he
    obtain ⟨h, _, rfl⟩ := List.mem_map.mp he
    exact id
  refine ⟨hm.accounted, fun h => ?_, fun h => ?_,
    hm.safe.append (Alphabet.safe_of_not_ends hends) ?_⟩
  · rw [← hm.closed]
    simp
  · rw [← hm.handedOut]
    simp
  · intro e he h hnames hended
    obtain ⟨h', hh', rfl⟩ := List.mem_map.mp he
    obtain ⟨rfl, hne⟩ := names_eq_some.mp hnames
    have hraw : h' = m.world.rawHandle a := honly h' hh'
    have hended' := hm.ended hended
    rw [Entry.handle, hraw] at hne hended'
    exact (settled_separate hm.accounted).2 a ha.1 hne hended'

theorem recorded_step (m : Machine κ) (e : Event) (m' : Machine κ) (hm : Recorded m)
    (hs : Step fs sys create m e m') : Recorded m' := by
  cases hs with
  | own hstep hc hx => exact recorded_own hm hstep hc hx
  | io ha hp => exact recorded_io hm ha hp

/-- The trace of a machine: what its wrappers did, with nothing after the end of a raw
handle that names it. -/
structure TraceSafe (m : Machine κ) : Prop where
  closed : ∀ h, .closed h ∈ m.trace ↔ h ∈ m.world.closed
  handedOut : ∀ h, .handedOut h ∈ m.trace ↔ h ∈ m.world.extracted
  nothing_after_end : ∀ before e after, m.trace = before ++ e :: after → e.handle ≠ nullptr →
    .closed e.handle ∉ before ∧ .handedOut e.handle ∉ before

theorem Recorded.traceSafe {m : Machine κ} (h : Recorded m) : TraceSafe m := by
  refine ⟨h.closed, h.handedOut, ?_⟩
  intro before e after htrace hne
  have hsafe := h.safe
  rw [htrace] at hsafe
  have hended := hsafe.not_ended (names_eq_some.mpr ⟨rfl, hne⟩)
  have hends : ∀ e', entries.ends e' → e'.handle = e.handle → e' ∉ before := by
    intro e' hends heq hmem
    exact hended ⟨e', hmem, hends, names_eq_some.mpr ⟨heq, hne⟩⟩
  exact ⟨hends _ trivial rfl, hends _ trivial rfl⟩

end IocpTrace
