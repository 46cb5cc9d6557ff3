import Laio.IocpCompletion

/-! # Reading and writing through a `Handle`

The system calls are parameters over the state of the kernel, to which the memory behind a
span belongs. Reading and writing differ in the call that submits the transfer. -/
namespace IocpTransfer

open IocpHandle IocpCompletion

abbrev BOOLEAN := UInt8

def FALSE : BOOLEAN := 0
def TRUE : BOOLEAN := 1

/-- The sizes that the signed index of a span can express. -/
abbrev Size := {n : ℕ // n < 2 ^ 63}

structure Span where
  data : Addr
  sizeBytes : Size

structure Transferred (κ : Type*) where
  ret : BOOL
  bytes : DWORD
  state : κ

/-- `ReadFile` or `WriteFile`: handle, buffer, length, and the two optional pointers. -/
abbrev Submit (κ : Type*) :=
  κ → HANDLE → Addr → DWORD → Option DWORD → Option LPOVERLAPPED → Transferred κ

/-- The last two fields are the error codes `win_errc` names. -/
structure FileSystem (κ ε : Type*) where
  readFile : Submit κ
  writeFile : Submit κ
  getOverlappedResult : κ → HANDLE → LPOVERLAPPED → DWORD → BOOL → Transferred κ
  getLastError : κ → DWORD
  winError : κ → ε
  winErrorOf : DWORD → ε
  ioPending : DWORD
  ioIncomplete : DWORD

inductive Direction where
  | read
  | write
  deriving DecidableEq, Repr

def submitOf {κ ε : Type*} (fs : FileSystem κ ε) : Direction → Submit κ
  | .read => fs.readFile
  | .write => fs.writeFile

/-- `(std::min)(size, max)`, both narrowed first. -/
def transferLength (size : ℕ) : DWORD :=
  min (UInt32.ofNat size) (UInt32.ofNat (2 ^ 64 - 1))

variable {κ ε : Type*} (sys : FileSystem κ ε) (submit : Submit κ)

namespace Handle

def transfer (this : HANDLE) (k : κ) (buf : Span) : Result ε UInt64 × κ :=
  let r := submit k this buf.data (transferLength buf.sizeBytes) (some 0) none
  if r.ret ≠ 0 then
    (.ok r.bytes.toUInt64, r.state)
  else
    (.error (sys.winError r.state), r.state)

def write (this : HANDLE) (k : κ) (buf : Span) : Result ε UInt64 × κ :=
  transfer sys sys.writeFile this k buf

def read (this : HANDLE) (k : κ) (buf : Span) : Result ε UInt64 × κ :=
  transfer sys sys.readFile this k buf

/-- A pending transfer is not an error, and an incomplete one only if nobody waits. -/
def overlappedHelper (this : HANDLE) (k : κ) (buf : Span) (overlapped : LPOVERLAPPED)
    (wait : BOOLEAN) : Result ε (Option UInt64) × κ :=
  let r := submit k this buf.data (transferLength buf.sizeBytes) none (some overlapped)
  let err := sys.getLastError r.state
  if r.ret = 0 ∧ err ≠ sys.ioPending then
    (.error (sys.winErrorOf err), r.state)
  else
    let r := sys.getOverlappedResult r.state this overlapped 0 wait.toUInt32.toInt32
    if r.ret = 0 then
      let err := sys.getLastError r.state
      if err = sys.ioIncomplete ∧ wait = FALSE then
        (.ok none, r.state)
      else
        (.error (sys.winErrorOf err), r.state)
    else
      (.ok (some r.bytes.toUInt64), r.state)

/-- The visitor of the two waiting functions: `*arg` is undefined on an empty optional. -/
def unwrapped (res : Result ε (Option UInt64) × κ) : Option (Result ε UInt64 × κ) :=
  match res with
  | (.ok (some bytes), k) => some (.ok bytes, k)
  | (.ok none, _) => none
  | (.error err, k) => some (.error err, k)

def readOverlappedHelper := overlappedHelper sys sys.readFile

def writeOverlappedHelper := overlappedHelper sys sys.writeFile

def readOverlapped (this : HANDLE) (k : κ) (buf : Span) (overlapped : LPOVERLAPPED) :
    Result ε (Option UInt64) × κ :=
  readOverlappedHelper sys this k buf overlapped FALSE

def readOverlappedWait (this : HANDLE) (k : κ) (buf : Span) (overlapped : LPOVERLAPPED) :
    Option (Result ε UInt64 × κ) :=
  unwrapped (readOverlappedHelper sys this k buf overlapped TRUE)

def writeOverlapped (this : HANDLE) (k : κ) (buf : Span) (overlapped : LPOVERLAPPED) :
    Result ε (Option UInt64) × κ :=
  writeOverlappedHelper sys this k buf overlapped FALSE

def writeOverlappedWait (this : HANDLE) (k : κ) (buf : Span) (overlapped : LPOVERLAPPED) :
    Option (Result ε UInt64 × κ) :=
  unwrapped (writeOverlappedHelper sys this k buf overlapped TRUE)

theorem unwrapped_eq_some {res : Result ε (Option UInt64) × κ} {r : Result ε UInt64 × κ} :
    unwrapped res = some r ↔ res = (r.1.map some, r.2) := by
  obtain ⟨_ | _ | _, k⟩ := res <;> obtain ⟨_ | _, k'⟩ := r <;>
    simp [unwrapped, Except.map, eq_comm]

theorem exists_unwrapped {res : Result ε (Option UInt64) × κ} (h : res.1 ≠ .ok none) :
    ∃ r, unwrapped res = some r := by
  obtain ⟨_ | _ | _, k⟩ := res
  · exact ⟨_, rfl⟩
  · exact (h rfl).elim
  · exact ⟨_, rfl⟩

theorem unwrapped_state {res : Result ε (Option UInt64) × κ} {r : Result ε UInt64 × κ}
    (h : unwrapped res = some r) : r.2 = res.2 := by
  rw [unwrapped_eq_some.mp h]

end Handle

def Refused (r : Transferred κ) : Prop := r.ret = 0 ∧ sys.getLastError r.state ≠ sys.ioPending

instance (r : Transferred κ) : Decidable (Refused sys r) :=
  inferInstanceAs (Decidable (r.ret = 0 ∧ sys.getLastError r.state ≠ sys.ioPending))

def queried (wait : BOOLEAN) (q : Transferred κ) : Result ε (Option UInt64) :=
  if q.ret = 0 then
    if sys.getLastError q.state = sys.ioIncomplete ∧ wait = FALSE then
      .ok none
    else
      .error (sys.winErrorOf (sys.getLastError q.state))
  else
    .ok (some q.bytes.toUInt64)

theorem queried_wait_ne_none (q : Transferred κ) : queried sys TRUE q ≠ .ok none := by
  rw [queried]
  split
  · rw [if_neg fun h => absurd h.2 (by decide)]
    exact nofun
  · exact nofun

namespace Handle

variable {sys submit} {this : HANDLE} {k : κ} {buf : Span} {overlapped : LPOVERLAPPED}
  {wait : BOOLEAN} {s q : Transferred κ}

theorem overlappedHelper_eq
    (hs : submit k this buf.data (transferLength buf.sizeBytes) none (some overlapped) = s)
    (hq : sys.getOverlappedResult s.state this overlapped 0 wait.toUInt32.toInt32 = q) :
    overlappedHelper sys submit this k buf overlapped wait =
      if Refused sys s then
        (.error (sys.winErrorOf (sys.getLastError s.state)), s.state)
      else
        (queried sys wait q, q.state) := by
  subst hs hq
  rw [overlappedHelper]
  by_cases hrefused : Refused sys (submit k this buf.data (transferLength buf.sizeBytes) none
      (some overlapped))
  · rw [if_pos hrefused]
    exact if_pos hrefused
  · rw [if_neg hrefused]
    refine (if_neg hrefused).trans ?_
    simp only [queried]
    split
    · split <;> rfl
    · rfl

variable (sys submit this k buf overlapped)

theorem overlappedHelper_wait_ne_none :
    (overlappedHelper sys submit this k buf overlapped TRUE).1 ≠ .ok none := by
  rw [overlappedHelper_eq rfl rfl]
  split
  · exact nofun
  · exact queried_wait_ne_none sys _

end Handle

theorem transferLength_toNat (size : ℕ) : (transferLength size).toNat = size % 2 ^ 32 := by
  rw [transferLength, min_narrowed, UInt32.toNat_ofNat']

end IocpTransfer
