import Laio.IocpRecording
import Mathlib.Data.Set.Insert

/-! # What is handed to the system

Sizes and timeouts are narrowed to 32 bits on their way into the system calls. Every call is
recorded next to the state of an arbitrary kernel, and the recorded argument is compared
with what it stands for. -/
namespace IocpNarrowing

open IocpHandle IocpCompletion IocpTransfer IocpRecording

inductive Request where
  | readFile (len : DWORD)
  | writeFile (len : DWORD)
  | getQueuedCompletionStatus (ms : DWORD)
  | getQueuedCompletionStatusEx (count ms : DWORD)
  deriving DecidableEq, Repr

def fileRequests {κ : Type*} : FileCall κ → List Request
  | .submit .read _ len _ => [.readFile len]
  | .submit .write _ len _ => [.writeFile len]
  | .query .. => []

def portRequests : PortCall → List Request
  | .create _ => []
  | .post _ => []
  | .get _ ms => [.getQueuedCompletionStatus ms]
  | .getEx _ len ms => [.getQueuedCompletionStatusEx len ms]

section Recorders

variable {κ ε : Type*}

def recordedFiles (fs : FileSystem κ ε) : FileSystem (κ × List Request) ε :=
  recordFiles fileRequests fs

def recordedPorts (sys : System κ ε) : System (κ × List Request) ε :=
  recordPorts portRequests sys

variable (fs : FileSystem κ ε) (sys : System κ ε) (this : HANDLE) (port : CompletionPort) (k : κ)
  (buf : Span) (overlapped : LPOVERLAPPED) (list : List CompletionStatus)
  (timeout : Option Int64)

theorem requests_read : (Handle.read (recordedFiles fs) this (k, []) buf).2.2 =
    [.readFile (transferLength buf.sizeBytes)] :=
  congrArg (·.2.2) (transfer_record fileRequests fs .read this k [] buf)

theorem requests_write : (Handle.write (recordedFiles fs) this (k, []) buf).2.2 =
    [.writeFile (transferLength buf.sizeBytes)] :=
  congrArg (·.2.2) (transfer_record fileRequests fs .write this k [] buf)

theorem requests_overlappedHelper (d : Direction) (wait : BOOLEAN) :
    (Handle.overlappedHelper (recordedFiles fs) (submitOf (recordedFiles fs) d) this (k, []) buf
      overlapped wait).2.2 =
      fileRequests (.submit d this (transferLength buf.sizeBytes)
        (submitOf fs d k this buf.data (transferLength buf.sizeBytes) none (some overlapped))) := by
  rw [recordedFiles, overlappedHelper_record fileRequests [] rfl rfl]
  split <;> exact List.append_nil _

theorem requests_readOverlapped :
    (Handle.readOverlapped (recordedFiles fs) this (k, []) buf overlapped).2.2 =
      [.readFile (transferLength buf.sizeBytes)] :=
  requests_overlappedHelper fs this k buf overlapped .read FALSE

theorem requests_writeOverlapped :
    (Handle.writeOverlapped (recordedFiles fs) this (k, []) buf overlapped).2.2 =
      [.writeFile (transferLength buf.sizeBytes)] :=
  requests_overlappedHelper fs this k buf overlapped .write FALSE

theorem requests_get : (port.get (recordedPorts sys) (k, []) timeout).2.2 =
    [.getQueuedCompletionStatus (duration timeout)] :=
  congrArg (·.2.2) (get_record portRequests sys port k [] timeout)

theorem requests_getMany
    {r : Result ε (List CompletionStatus) × List CompletionStatus × κ × List Request}
    (h : port.getMany (recordedPorts sys) (k, []) list timeout = some r) :
    r.2.2.2 = [.getQueuedCompletionStatusEx (transferLength list.length) (duration timeout)] := by
  rw [recordedPorts, getMany_record] at h
  obtain ⟨_, _, rfl⟩ := Option.map_eq_some_iff.mp h
  rfl

theorem requests_readOverlappedWait {r : Result ε UInt64 × κ × List Request}
    (h : Handle.readOverlappedWait (recordedFiles fs) this (k, []) buf overlapped = some r) :
    r.2.2 = [.readFile (transferLength buf.sizeBytes)] := by
  rw [Handle.unwrapped_state h]
  exact requests_overlappedHelper fs this k buf overlapped .read TRUE

theorem requests_writeOverlappedWait {r : Result ε UInt64 × κ × List Request}
    (h : Handle.writeOverlappedWait (recordedFiles fs) this (k, []) buf overlapped = some r) :
    r.2.2 = [.writeFile (transferLength buf.sizeBytes)] := by
  rw [Handle.unwrapped_state h]
  exact requests_overlappedHelper fs this k buf overlapped .write TRUE

end Recorders

theorem mem_requests {requests : List Request} {r : Request} (h : requests = [r]) :
    r ∈ requests := by
  rw [h]
  exact List.mem_singleton_self r

theorem eq_of_mem_requests {requests : List Request} {r r' : Request} (h : requests = [r])
    (hm : r' ∈ requests) : r' = r := by
  rw [h] at hm
  exact List.mem_singleton.mp hm

inductive Site where
  | read
  | write
  | readOverlapped
  | readOverlappedWait
  | writeOverlapped
  | writeOverlappedWait
  | getMany
  deriving DecidableEq, Repr

/-- Some call at the site, with a buffer or list of that size, hands this length to the
system. The system answers in any way. -/
inductive Passes : Site → Size → DWORD → Prop where
  | read {κ ε : Type} (fs : FileSystem κ ε) (this : HANDLE) (k : κ) (buf : Span) (len : DWORD)
      (h : .readFile len ∈ (Handle.read (recordedFiles fs) this (k, []) buf).2.2) :
      Passes .read buf.sizeBytes len
  | write {κ ε : Type} (fs : FileSystem κ ε) (this : HANDLE) (k : κ) (buf : Span) (len : DWORD)
      (h : .writeFile len ∈ (Handle.write (recordedFiles fs) this (k, []) buf).2.2) :
      Passes .write buf.sizeBytes len
  | readOverlapped {κ ε : Type} (fs : FileSystem κ ε) (this : HANDLE) (k : κ) (buf : Span)
      (len : DWORD) (overlapped : LPOVERLAPPED)
      (h : .readFile len ∈
        (Handle.readOverlapped (recordedFiles fs) this (k, []) buf overlapped).2.2) :
      Passes .readOverlapped buf.sizeBytes len
  | readOverlappedWait {κ ε : Type} (fs : FileSystem κ ε) (this : HANDLE) (k : κ) (buf : Span)
      (len : DWORD) (overlapped : LPOVERLAPPED) (r : Result ε UInt64 × κ × List Request)
      (hr : Handle.readOverlappedWait (recordedFiles fs) this (k, []) buf overlapped = some r)
      (h : .readFile len ∈ r.2.2) : Passes .readOverlappedWait buf.sizeBytes len
  | writeOverlapped {κ ε : Type} (fs : FileSystem κ ε) (this : HANDLE) (k : κ) (buf : Span)
      (len : DWORD) (overlapped : LPOVERLAPPED)
      (h : .writeFile len ∈
        (Handle.writeOverlapped (recordedFiles fs) this (k, []) buf overlapped).2.2) :
      Passes .writeOverlapped buf.sizeBytes len
  | writeOverlappedWait {κ ε : Type} (fs : FileSystem κ ε) (this : HANDLE) (k : κ) (buf : Span)
      (len : DWORD) (overlapped : LPOVERLAPPED) (r : Result ε UInt64 × κ × List Request)
      (hr : Handle.writeOverlappedWait (recordedFiles fs) this (k, []) buf overlapped = some r)
      (h : .writeFile len ∈ r.2.2) : Passes .writeOverlappedWait buf.sizeBytes len
  | getMany {κ ε : Type} (sys : System κ ε) (port : CompletionPort) (k : κ)
      (list : List CompletionStatus) (size : Size) (hsize : list.length = size.val)
      (timeout : Option Int64) (count ms : DWORD)
      (r : Result ε (List CompletionStatus) × List CompletionStatus × κ × List Request)
      (hr : port.getMany (recordedPorts sys) (k, []) list timeout = some r)
      (h : .getQueuedCompletionStatusEx count ms ∈ r.2.2.2) : Passes .getMany size count

def failingFiles : FileSystem Unit Unit where
  readFile _ _ _ _ _ _ := ⟨0, 0, ()⟩
  writeFile _ _ _ _ _ _ := ⟨0, 0, ()⟩
  getOverlappedResult _ _ _ _ _ := ⟨0, 0, ()⟩
  getLastError _ := 6
  winError _ := ()
  winErrorOf _ := ()
  ioPending := 997
  ioIncomplete := 996

def failingPorts : System Unit Unit where
  postQueuedCompletionStatus _ _ _ _ _ := (0, ())
  getQueuedCompletionStatus _ _ bytes key overlapped _ := ⟨0, bytes, key, overlapped, ()⟩
  getQueuedCompletionStatusEx _ _ entries _ removed _ _ := ⟨0, entries, removed, ()⟩
  winError _ := ()

theorem passes_transferLength (site : Site) (size : Size) :
    Passes site size (transferLength size) := by
  have hwait := fun submit => Handle.overlappedHelper_wait_ne_none (recordedFiles failingFiles)
    submit nullptr ((), []) ⟨0, size⟩ 0
  cases site with
  | read =>
    exact .read failingFiles nullptr () ⟨0, size⟩ _ (mem_requests (requests_read ..))
  | write =>
    exact .write failingFiles nullptr () ⟨0, size⟩ _ (mem_requests (requests_write ..))
  | readOverlapped =>
    exact .readOverlapped failingFiles nullptr () ⟨0, size⟩ _ 0
      (mem_requests (requests_readOverlapped ..))
  | readOverlappedWait =>
    obtain ⟨r, hr⟩ := Handle.exists_unwrapped (hwait (recordedFiles failingFiles).readFile)
    exact .readOverlappedWait failingFiles nullptr () ⟨0, size⟩ _ 0 r hr
      (mem_requests (requests_readOverlappedWait _ _ _ _ _ hr))
  | writeOverlapped =>
    exact .writeOverlapped failingFiles nullptr () ⟨0, size⟩ _ 0
      (mem_requests (requests_writeOverlapped ..))
  | writeOverlappedWait =>
    obtain ⟨r, hr⟩ := Handle.exists_unwrapped (hwait (recordedFiles failingFiles).writeFile)
    exact .writeOverlappedWait failingFiles nullptr () ⟨0, size⟩ _ 0 r hr
      (mem_requests (requests_writeOverlappedWait _ _ _ _ _ hr))
  | getMany =>
    have hlen : (List.replicate size.val CompletionStatus.zeroed).length = size.val :=
      List.length_replicate
    have hrequests := requests_getMany failingPorts ⟨nullptr⟩ ()
      (List.replicate size.val .zeroed) none rfl
    rw [hlen] at hrequests
    exact .getMany failingPorts ⟨nullptr⟩ () _ size hlen none _ _ _ rfl (mem_requests hrequests)

theorem passes_iff (site : Site) (size : Size) (len : DWORD) :
    Passes site size len ↔ len = transferLength size := by
  constructor
  · intro h
    cases h with
    | read fs this k buf len h =>
      exact Request.readFile.inj (eq_of_mem_requests (requests_read ..) h)
    | write fs this k buf len h =>
      exact Request.writeFile.inj (eq_of_mem_requests (requests_write ..) h)
    | readOverlapped fs this k buf len overlapped h =>
      exact Request.readFile.inj (eq_of_mem_requests (requests_readOverlapped ..) h)
    | readOverlappedWait fs this k buf len overlapped r hr h =>
      exact Request.readFile.inj
        (eq_of_mem_requests (requests_readOverlappedWait _ _ _ _ _ hr) h)
    | writeOverlapped fs this k buf len overlapped h =>
      exact Request.writeFile.inj (eq_of_mem_requests (requests_writeOverlapped ..) h)
    | writeOverlappedWait fs this k buf len overlapped r hr h =>
      exact Request.writeFile.inj
        (eq_of_mem_requests (requests_writeOverlappedWait _ _ _ _ _ hr) h)
    | getMany sys port k list size hsize timeout count ms r hr h =>
      have hboth := Request.getQueuedCompletionStatusEx.inj
        (eq_of_mem_requests (requests_getMany sys port k list timeout hr) h)
      rw [← hsize]
      exact hboth.1
  · rintro rfl
    exact passes_transferLength site size

/-- What the lengths handed over for the sizes in `S` should be. -/
structure Clamped (site : Site) (S : Set Size) : Prop where
  clamped : ∀ n ∈ S, ∀ len, Passes site n len → len.toNat = min n.val (2 ^ 32 - 1)
  le : ∀ n ∈ S, ∀ len, Passes site n len → len.toNat ≤ n.val
  progress : ∀ n ∈ S, ∀ len, Passes site n len → 0 < n.val → 0 < len
  monotone : ∀ m ∈ S, ∀ n ∈ S, ∀ len len', m ≤ n → Passes site m len → Passes site n len' →
    len ≤ len'

/-- The lengths are right exactly for the sizes below four gigabytes and those that leave the
largest remainder. -/
theorem clamped_iff (site : Site) (S : Set Size) :
    Clamped site S ↔ ∀ n ∈ S, n.val < 2 ^ 32 ∨ n.val % 2 ^ 32 = 2 ^ 32 - 1 := by
  constructor
  · intro h n hn
    have hlen := h.clamped n hn _ (passes_transferLength site n)
    rw [transferLength_toNat] at hlen
    omega
  · intro h
    have hclamp : ∀ n ∈ S, ∀ len, Passes site n len → len.toNat = min n.val (2 ^ 32 - 1) := by
      intro n hn len hlen
      rw [(passes_iff site n len).mp hlen, transferLength_toNat]
      have := h n hn
      omega
    refine ⟨hclamp, ?_, ?_, ?_⟩
    · intro n hn len hlen
      rw [hclamp n hn len hlen]
      exact Nat.min_le_left _ _
    · intro n hn len hlen hpos
      rw [UInt32.lt_iff_toNat_lt, hclamp n hn len hlen, UInt32.toNat_zero]
      omega
    · intro m hm n hn len len' hmn hlen hlen'
      rw [UInt32.le_iff_toNat_le, hclamp m hm len hlen, hclamp n hn len' hlen']
      have hmn : m.val ≤ n.val := hmn
      omega

theorem four_gigabytes_empty : ¬Clamped .write {⟨2 ^ 32, by decide⟩} := by
  intro h
  have hpos := h.progress _ rfl _ (passes_transferLength .write ⟨2 ^ 32, by decide⟩) (by decide)
  exact absurd hpos (by decide)

inductive WaitSite where
  | get
  | getMany
  deriving DecidableEq, Repr

abbrev Milliseconds := {t : Int64 // 0 ≤ t}

def Milliseconds.count (t : Milliseconds) : ℕ := t.val.toNatClampNeg

/-- Some call at the site, with that timeout, hands this wait to the system. -/
inductive Waits : WaitSite → Option Milliseconds → DWORD → Prop where
  | get {κ ε : Type} (sys : System κ ε) (port : CompletionPort) (k : κ)
      (timeout : Option Milliseconds) (ms : DWORD)
      (h : .getQueuedCompletionStatus ms ∈
        (port.get (recordedPorts sys) (k, []) (timeout.map Subtype.val)).2.2) :
      Waits .get timeout ms
  | getMany {κ ε : Type} (sys : System κ ε) (port : CompletionPort) (k : κ)
      (list : List CompletionStatus) (timeout : Option Milliseconds) (count ms : DWORD)
      (r : Result ε (List CompletionStatus) × List CompletionStatus × κ × List Request)
      (hr : port.getMany (recordedPorts sys) (k, []) list (timeout.map Subtype.val) = some r)
      (h : .getQueuedCompletionStatusEx count ms ∈ r.2.2.2) : Waits .getMany timeout ms

theorem waits_duration (site : WaitSite) (timeout : Option Milliseconds) :
    Waits site timeout (duration (timeout.map Subtype.val)) := by
  cases site with
  | get =>
    exact .get failingPorts ⟨nullptr⟩ () timeout _ (mem_requests (requests_get ..))
  | getMany =>
    exact .getMany failingPorts ⟨nullptr⟩ () [] timeout _ _ _ rfl
      (mem_requests (requests_getMany failingPorts ⟨nullptr⟩ () [] _ rfl))

theorem waits_iff (site : WaitSite) (timeout : Option Milliseconds) (ms : DWORD) :
    Waits site timeout ms ↔ ms = duration (timeout.map Subtype.val) := by
  constructor
  · intro h
    cases h with
    | get sys port k timeout ms h =>
      exact Request.getQueuedCompletionStatus.inj (eq_of_mem_requests (requests_get ..) h)
    | getMany sys port k list timeout count ms r hr h =>
      have hboth := Request.getQueuedCompletionStatusEx.inj
        (eq_of_mem_requests (requests_getMany sys port k list _ hr) h)
      exact hboth.2
  · rintro rfl
    exact waits_duration site timeout

theorem duration_toNat (t : Milliseconds) :
    (duration (some t.val)).toNat = t.count % 2 ^ 32 := by
  rw [duration, UInt64.toNat_toUInt32, Int64.toNat_toUInt64_of_le t.property]
  rfl

theorem Milliseconds.count_le {t t' : Milliseconds} : t ≤ t' ↔ t.count ≤ t'.count := by
  have h : t.val ≤ t'.val ↔ t.val.toInt ≤ t'.val.toInt := Int64.le_iff_toInt_le
  rw [Int64.toInt_eq_toNatClampNeg t.property, Int64.toInt_eq_toNatClampNeg t'.property] at h
  exact h.trans Int.ofNat_le

/-- What the waits handed over for the timeouts in `S`, and for none, should be. -/
structure Converted (site : WaitSite) (S : Set Milliseconds) : Prop where
  infinite_none : ∀ ms, Waits site none ms → ms = INFINITE
  infinite_some : ∀ t ∈ S, ∀ ms, Waits site (some t) ms → ms ≠ INFINITE
  exact : ∀ t ∈ S, ∀ ms, Waits site (some t) ms → t.count < 2 ^ 32 - 1 → ms.toNat = t.count
  monotone : ∀ t ∈ S, ∀ t' ∈ S, ∀ ms ms', t ≤ t' → Waits site (some t) ms →
    Waits site (some t') ms' → ms ≤ ms'

/-- The waits are right exactly if no timeout leaves the remainder that stands for an infinite
wait, and the remainders grow with the number of wraps. -/
theorem converted_iff (site : WaitSite) (S : Set Milliseconds) : Converted site S ↔
    (∀ t ∈ S, t.count % 2 ^ 32 ≠ 2 ^ 32 - 1) ∧
      ∀ t ∈ S, ∀ t' ∈ S, t.count / 2 ^ 32 < t'.count / 2 ^ 32 →
        t.count % 2 ^ 32 ≤ t'.count % 2 ^ 32 := by
  have hinf : ∀ t : Milliseconds,
      duration (some t.val) = INFINITE ↔ t.count % 2 ^ 32 = 2 ^ 32 - 1 := by
    intro t
    rw [← UInt32.toNat_inj, duration_toNat]
    rfl
  constructor
  · intro h
    refine ⟨?_, ?_⟩
    · intro t ht hmod
      exact h.infinite_some t ht _ (waits_duration site (some t)) ((hinf t).mpr hmod)
    · intro t ht t' ht' hdiv
      have hle := h.monotone t ht t' ht' _ _ (Milliseconds.count_le.mpr (by omega))
        (waits_duration site (some t)) (waits_duration site (some t'))
      rw [UInt32.le_iff_toNat_le] at hle
      exact (duration_toNat t) ▸ (duration_toNat t') ▸ hle
  · rintro ⟨hmod, hdiv⟩
    refine ⟨?_, ?_, ?_, ?_⟩
    · intro ms hms
      exact (waits_iff site none ms).mp hms
    · intro t ht ms hms heq
      rw [(waits_iff site (some t) ms).mp hms] at heq
      exact hmod t ht ((hinf t).mp heq)
    · intro t ht ms hms hlt
      rw [(waits_iff site (some t) ms).mp hms]
      refine (duration_toNat t).trans (Nat.mod_eq_of_lt (by omega))
    · intro t ht t' ht' ms ms' hle hms hms'
      rw [(waits_iff site (some t) ms).mp hms, (waits_iff site (some t') ms').mp hms',
        UInt32.le_iff_toNat_le]
      have hwrap := hdiv t ht t' ht'
      have hcount := Milliseconds.count_le.mp hle
      refine (duration_toNat t).trans_le (le_of_le_of_eq ?_ (duration_toNat t').symm)
      by_cases hlt : t.count / 2 ^ 32 < t'.count / 2 ^ 32
      · exact hwrap hlt
      · omega

theorem finite_wait_infinite : ¬Converted .get {⟨4294967295, by decide⟩} := by
  intro h
  exact h.infinite_some _ rfl _ (waits_duration .get (some ⟨4294967295, by decide⟩)) (by decide)

end IocpNarrowing
