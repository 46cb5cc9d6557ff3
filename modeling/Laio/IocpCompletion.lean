import Laio.IocpHandle
import Mathlib.Data.List.Basic

/-! # Completion statuses and the calls of a completion port

The system calls are parameters over the state of the kernel; out-parameters are passed in
and returned. An error of the system is what `win_error` captures after the call. -/
namespace IocpCompletion

open IocpHandle

abbrev BOOL := Int32
abbrev DWORD := UInt32
abbrev ULONG_PTR := UInt64
abbrev LPOVERLAPPED := UInt64

abbrev Result (ε α : Type*) := Except ε α

def INFINITE : DWORD := 0xffffffff

structure OverlappedEntry where
  lpCompletionKey : ULONG_PTR
  lpOverlapped : LPOVERLAPPED
  Internal : ULONG_PTR
  dwNumberOfBytesTransferred : DWORD
  deriving DecidableEq, Repr

/-- `Overlapped::raw`: the raw structure is the first member of the wrapper. -/
def Overlapped.raw (this : LPOVERLAPPED) : LPOVERLAPPED := this

structure CompletionStatus where
  rawOverlappedEntry : OverlappedEntry
  deriving DecidableEq, Repr

namespace CompletionStatus

def zeroed : CompletionStatus := ⟨0, 0, 0, 0⟩

def create (bytes : UInt32) (token : UInt64) (overlapped : LPOVERLAPPED) : CompletionStatus :=
  ⟨⟨token, Overlapped.raw overlapped, 0, bytes⟩⟩

def bytesTransferred (s : CompletionStatus) : UInt32 :=
  s.rawOverlappedEntry.dwNumberOfBytesTransferred

def token (s : CompletionStatus) : UInt64 := s.rawOverlappedEntry.lpCompletionKey

def overlapped (s : CompletionStatus) : LPOVERLAPPED := s.rawOverlappedEntry.lpOverlapped

end CompletionStatus

structure Dequeued (κ : Type*) where
  ret : BOOL
  bytes : DWORD
  token : ULONG_PTR
  overlapped : LPOVERLAPPED
  state : κ

structure DequeuedMany (κ : Type*) where
  ret : BOOL
  entries : List OverlappedEntry
  removed : DWORD
  state : κ

structure System (κ ε : Type*) where
  postQueuedCompletionStatus : κ → HANDLE → DWORD → ULONG_PTR → LPOVERLAPPED → BOOL × κ
  getQueuedCompletionStatus :
    κ → HANDLE → DWORD → ULONG_PTR → LPOVERLAPPED → DWORD → Dequeued κ
  getQueuedCompletionStatusEx :
    κ → HANDLE → List OverlappedEntry → DWORD → DWORD → DWORD → BOOL → DequeuedMany κ
  winError : κ → ε

/-- `CreateIoCompletionPort`: an object, a port, the key, and a number of threads. -/
abbrev Create (κ : Type*) := κ → HANDLE → HANDLE → ULONG_PTR → DWORD → HANDLE × κ

structure CompletionPort where
  rawHandle : HANDLE

/-- Milliseconds are narrowed to 32 bits; no timeout waits forever. -/
def duration (timeout : Option Int64) : DWORD :=
  match timeout with
  | some t => t.toUInt64.toUInt32
  | none => INFINITE

/-- `gsl::span::first`, of a library outside the repository: assumed is the documented
precondition that the span is no shorter, and termination where it is violated. -/
def first {α : Type*} (list : List α) (n : ℕ) : Option (List α) :=
  if n ≤ list.length then some (list.take n) else none

/-- `(std::min)(size, max)`, both narrowed first. -/
def listLength (list : List CompletionStatus) : DWORD :=
  min (UInt32.ofNat list.length) (UInt32.ofNat (2 ^ 64 - 1))

theorem min_narrowed (size : ℕ) :
    min (UInt32.ofNat size) (UInt32.ofNat (2 ^ 64 - 1)) = UInt32.ofNat size := by
  apply if_pos
  rw [UInt32.le_iff_toNat_le, UInt32.toNat_ofNat', UInt32.toNat_ofNat']
  omega

theorem listLength_toNat {list : List CompletionStatus} (h : list.length < 2 ^ 32) :
    (listLength list).toNat = list.length := by
  rw [listLength, min_narrowed, UInt32.toNat_ofNat', Nat.mod_eq_of_lt h]

variable {κ ε : Type*} (sys : System κ ε)

namespace CompletionPort

def post (port : CompletionPort) (k : κ) (status : CompletionStatus) : Result ε Unit × κ :=
  let overlappedEntry := status.rawOverlappedEntry
  let r := sys.postQueuedCompletionStatus k port.rawHandle
    overlappedEntry.dwNumberOfBytesTransferred overlappedEntry.lpCompletionKey
    overlappedEntry.lpOverlapped
  if r.1 = 0 then (.error (sys.winError r.2), r.2) else (.ok (), r.2)

def get (port : CompletionPort) (k : κ) (timeout : Option Int64) : Result ε CompletionStatus × κ :=
  let r := sys.getQueuedCompletionStatus k port.rawHandle 0 0 0 (duration timeout)
  if r.ret = 0 then
    (.error (sys.winError r.state), r.state)
  else
    (.ok ⟨⟨r.token, r.overlapped, 0, r.bytes⟩⟩, r.state)

/-- The result, the receiving list afterwards, and the kernel; `none` is termination. -/
def getMany (port : CompletionPort) (k : κ) (list : List CompletionStatus)
    (timeout : Option Int64) :
    Option (Result ε (List CompletionStatus) × List CompletionStatus × κ) :=
  let r := sys.getQueuedCompletionStatusEx k port.rawHandle
    (list.map CompletionStatus.rawOverlappedEntry) (listLength list) 0 (duration timeout) 0
  let list := r.entries.map CompletionStatus.mk
  if r.ret = 0 then
    some (.error (sys.winError r.state), list, r.state)
  else
    (first list r.removed.toNat).map fun dequeued => (.ok dequeued, list, r.state)

/-- `add_`; the token is the key of the object. -/
def add (create : Create κ) (port : CompletionPort) (k : κ) (token : UInt64) (handle : HANDLE) :
    Result ε Unit × κ :=
  let r := create k handle port.rawHandle token 0
  if r.1 = nullptr then (.error (sys.winError r.2), r.2) else (.ok (), r.2)

/-- `add_socket`: the raw socket is taken for a raw handle. -/
def addSocket (create : Create κ) (port : CompletionPort) (k : κ) (token : UInt64)
    (rawSocket : HANDLE) : Result ε Unit × κ :=
  add sys create port k token rawSocket

variable {sys} {port : CompletionPort} {k k' : κ} {timeout : Option Int64}

theorem post_state {status : CompletionStatus} {r : Result ε Unit}
    (h : port.post sys k status = (r, k')) : k' = (sys.postQueuedCompletionStatus k
      port.rawHandle status.bytesTransferred status.token status.overlapped).2 := by
  have hk : (port.post sys k status).2 = k' := congrArg Prod.snd h
  rw [← hk, post]
  split <;> rfl

theorem post_ok_iff {status : CompletionStatus} {r : Result ε Unit}
    (h : port.post sys k status = (r, k')) : r = .ok () ↔ (sys.postQueuedCompletionStatus k
      port.rawHandle status.bytesTransferred status.token status.overlapped).1 ≠ 0 := by
  have hr : (port.post sys k status).1 = r := congrArg Prod.fst h
  simp only [← hr, post, CompletionStatus.bytesTransferred, CompletionStatus.token,
    CompletionStatus.overlapped]
  split
  · next hret => exact iff_of_false nofun (not_not_intro hret)
  · next hret => exact iff_of_true rfl hret

theorem get_state {r : Result ε CompletionStatus} (h : port.get sys k timeout = (r, k')) :
    k' = (sys.getQueuedCompletionStatus k port.rawHandle 0 0 0 (duration timeout)).state := by
  have hk : (port.get sys k timeout).2 = k' := congrArg Prod.snd h
  rw [← hk, get]
  split <;> rfl

theorem getMany_state {list list' : List CompletionStatus} {r : Result ε (List CompletionStatus)}
    (h : port.getMany sys k list timeout = some (r, list', k')) :
    k' = (sys.getQueuedCompletionStatusEx k port.rawHandle
      (list.map CompletionStatus.rawOverlappedEntry) (listLength list) 0 (duration timeout)
      0).state := by
  rw [getMany] at h
  by_cases hret : (sys.getQueuedCompletionStatusEx k port.rawHandle
      (list.map CompletionStatus.rawOverlappedEntry) (listLength list) 0 (duration timeout)
      0).ret = 0
  · rw [if_pos hret] at h
    exact (congrArg (·.2.2) (Option.some.inj h)).symm
  · rw [if_neg hret] at h
    obtain ⟨dequeued, _, hr⟩ := Option.map_eq_some_iff.mp h
    exact (congrArg (·.2.2) hr).symm

end CompletionPort

/-- A queued packet. That of a failed operation always names its overlapped structure. -/
structure Packet where
  bytes : DWORD
  key : ULONG_PTR
  overlapped : LPOVERLAPPED
  failed : Bool
  named : failed = true → overlapped ≠ 0
  deriving DecidableEq

def Packet.posted (bytes : DWORD) (key : ULONG_PTR) (overlapped : LPOVERLAPPED) : Packet :=
  ⟨bytes, key, overlapped, false, by simp⟩

/-- What a caller can read off a message. -/
structure Message where
  bytes : UInt32
  token : UInt64
  overlapped : LPOVERLAPPED
  deriving DecidableEq, Repr

def Packet.message (p : Packet) : Message := ⟨p.bytes, p.key, p.overlapped⟩

def CompletionStatus.message (s : CompletionStatus) : Message :=
  ⟨s.bytesTransferred, s.token, s.overlapped⟩

/-- Posting appends a packet or fails. A dequeue fails without effect on an empty queue; one
that blocks until a packet arrives is the arrival, followed by the dequeue. The single one
removes the oldest packet, also if it reports the failure of its operation; the batch one
moves as many as fit to the front of the array. -/
structure Documented (port : HANDLE) (queue : κ → List Packet) : Prop where
  post : ∀ k bytes key overlapped,
    let r := sys.postQueuedCompletionStatus k port bytes key overlapped
    r.1 ≠ 0 ∧ queue r.2 = queue k ++ [.posted bytes key overlapped] ∨
      r.1 = 0 ∧ queue r.2 = queue k
  get_empty : ∀ k bytes key overlapped ms, queue k = [] →
    let r := sys.getQueuedCompletionStatus k port bytes key overlapped ms
    r.ret = 0 ∧ queue r.state = []
  get_packet : ∀ k bytes key overlapped ms p rest, queue k = p :: rest →
    let r := sys.getQueuedCompletionStatus k port bytes key overlapped ms
    r.bytes = p.bytes ∧ r.token = p.key ∧ r.overlapped = p.overlapped ∧
      queue r.state = rest ∧ (r.ret = 0 ↔ p.failed = true)
  getEx_empty : ∀ k entries len removed ms alertable, queue k = [] →
    let r := sys.getQueuedCompletionStatusEx k port entries len removed ms alertable
    r.ret = 0 ∧ r.entries = entries ∧ queue r.state = []
  getEx_none : ∀ k entries removed ms alertable,
    let r := sys.getQueuedCompletionStatusEx k port entries 0 removed ms alertable
    (r.ret ≠ 0 → r.removed = 0) ∧ r.entries = entries ∧ queue r.state = queue k
  getEx_packets : ∀ k entries len removed ms alertable, queue k ≠ [] →
    0 < len → len.toNat ≤ entries.length →
    let r := sys.getQueuedCompletionStatusEx k port entries len removed ms alertable
    r.ret ≠ 0 ∧ r.removed.toNat = min len.toNat (queue k).length ∧
      (∃ filled : List OverlappedEntry, r.entries = filled ++ entries.drop r.removed.toNat ∧
        filled.map (fun e => CompletionStatus.message ⟨e⟩) =
          ((queue k).take r.removed.toNat).map Packet.message) ∧
      queue r.state = (queue k).drop r.removed.toNat

def moved (k : List Packet) (entries : List OverlappedEntry) (n : ℕ) : DequeuedMany (List Packet) :=
  ⟨1, (k.take n).map (fun p => ⟨p.key, p.overlapped, 0, p.bytes⟩) ++ entries.drop n,
    UInt32.ofNat n, k.drop n⟩

def fifo (port : HANDLE) : System (List Packet) Unit where
  postQueuedCompletionStatus k h bytes key overlapped :=
    if h = port then (1, k ++ [.posted bytes key overlapped]) else (0, k)
  getQueuedCompletionStatus k h bytes key overlapped _ :=
    match k with
    | p :: rest =>
      if h = port then ⟨if p.failed then 0 else 1, p.bytes, p.key, p.overlapped, rest⟩
      else ⟨0, bytes, key, overlapped, k⟩
    | [] => ⟨0, bytes, key, overlapped, k⟩
  getQueuedCompletionStatusEx k h entries len removed _ _ :=
    if h = port ∧ k ≠ [] ∧ 0 < len then
      moved k entries (min len.toNat k.length)
    else
      ⟨0, entries, removed, k⟩
  winError _ := ()

theorem fifo_documented (port : HANDLE) : Documented (fifo port) port id where
  post k bytes key overlapped := by simp [fifo]
  get_empty k bytes key overlapped ms hk := by
    obtain rfl : k = [] := hk
    simp [fifo]
  get_packet k bytes key overlapped ms p rest hk := by
    obtain rfl : k = p :: rest := hk
    cases hf : p.failed <;> simp [fifo, hf]
  getEx_empty k entries len removed ms alertable hk := by
    obtain rfl : k = [] := hk
    simp [fifo]
  getEx_none k entries removed ms alertable := by simp [fifo]
  getEx_packets k entries len removed ms alertable hk hlen hfit := by
    intro r
    have hr : r = moved k entries (min len.toNat k.length) := if_pos ⟨rfl, hk, hlen⟩
    clear_value r
    subst hr
    have hn : (moved k entries (min len.toNat k.length)).removed.toNat =
        min len.toNat k.length := by
      have := len.toNat_lt
      rw [moved, UInt32.toNat_ofNat']
      omega
    rw [hn]
    refine ⟨by simp [moved], rfl, ⟨_, rfl, ?_⟩, rfl⟩
    rw [List.map_map]
    rfl

end IocpCompletion
