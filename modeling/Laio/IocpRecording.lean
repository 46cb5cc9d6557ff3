import Laio.IocpTransfer

/-! # Recording the calls of a system

A recorded system answers like the one it records, and keeps a list of entries next to the
state of the kernel. What a call enters there is a parameter. -/
namespace IocpRecording

open IocpHandle IocpCompletion IocpTransfer

inductive FileCall (κ : Type*) where
  | submit (d : Direction) (this : HANDLE) (len : DWORD) (r : Transferred κ)
  | query (this : HANDLE) (r : Transferred κ)

inductive PortCall where
  | create (port : HANDLE)
  | post (port : HANDLE)
  | get (port : HANDLE) (ms : DWORD)
  | getEx (port : HANDLE) (len ms : DWORD)

variable {κ ε α : Type*}

def recordSubmit (enter : FileCall κ → List α) (d : Direction) (submit : Submit κ) :
    Submit (κ × List α) :=
  fun k this data len bytes overlapped =>
    let r := submit k.1 this data len bytes overlapped
    ⟨r.ret, r.bytes, r.state, k.2 ++ enter (.submit d this len r)⟩

def recordFiles (enter : FileCall κ → List α) (fs : FileSystem κ ε) :
    FileSystem (κ × List α) ε where
  readFile := recordSubmit enter .read fs.readFile
  writeFile := recordSubmit enter .write fs.writeFile
  getOverlappedResult k this overlapped bytes wait :=
    let r := fs.getOverlappedResult k.1 this overlapped bytes wait
    ⟨r.ret, r.bytes, r.state, k.2 ++ enter (.query this r)⟩
  getLastError k := fs.getLastError k.1
  winError k := fs.winError k.1
  winErrorOf := fs.winErrorOf
  ioPending := fs.ioPending
  ioIncomplete := fs.ioIncomplete

def recordPorts (enter : PortCall → List α) (sys : System κ ε) : System (κ × List α) ε where
  postQueuedCompletionStatus k port bytes key overlapped :=
    let r := sys.postQueuedCompletionStatus k.1 port bytes key overlapped
    (r.1, r.2, k.2 ++ enter (.post port))
  getQueuedCompletionStatus k port bytes key overlapped ms :=
    let r := sys.getQueuedCompletionStatus k.1 port bytes key overlapped ms
    ⟨r.ret, r.bytes, r.token, r.overlapped, r.state, k.2 ++ enter (.get port ms)⟩
  getQueuedCompletionStatusEx k port entries len removed ms alertable :=
    let r := sys.getQueuedCompletionStatusEx k.1 port entries len removed ms alertable
    ⟨r.ret, r.entries, r.removed, r.state, k.2 ++ enter (.getEx port len ms)⟩
  winError k := sys.winError k.1

def recordCreate (enter : PortCall → List α) (create : Create κ) : Create (κ × List α) :=
  fun k handle port key threads =>
    let r := create k.1 handle port key threads
    (r.1, r.2, k.2 ++ enter (.create port))

section Files

variable (enter : FileCall κ → List α) (fs : FileSystem κ ε) (d : Direction) (this : HANDLE)
  (k : κ) (l : List α) (buf : Span)

theorem submitOf_recordFiles :
    submitOf (recordFiles enter fs) d = recordSubmit enter d (submitOf fs d) := by
  cases d <;> rfl

/-- The recorded transfer is the transfer, and enters its one call. -/
theorem transfer_record :
    Handle.transfer (recordFiles enter fs) (submitOf (recordFiles enter fs) d) this (k, l) buf =
      ((Handle.transfer fs (submitOf fs d) this k buf).1,
        (Handle.transfer fs (submitOf fs d) this k buf).2,
        l ++ enter (.submit d this (transferLength buf.sizeBytes)
          (submitOf fs d k this buf.data (transferLength buf.sizeBytes) (some 0) none))) := by
  rw [submitOf_recordFiles]
  simp only [Handle.transfer, recordSubmit]
  by_cases hret : (submitOf fs d k this buf.data (transferLength buf.sizeBytes) (some 0)
      none).ret = 0 <;>
    simp [hret, recordFiles]

variable {fs d this k buf} {overlapped : LPOVERLAPPED} {wait : BOOLEAN} {s q : Transferred κ}

theorem overlappedHelper_record
    (hs : submitOf fs d k this buf.data (transferLength buf.sizeBytes) none (some overlapped) = s)
    (hq : fs.getOverlappedResult s.state this overlapped 0 wait.toUInt32.toInt32 = q) :
    Handle.overlappedHelper (recordFiles enter fs) (submitOf (recordFiles enter fs) d) this
        (k, l) buf overlapped wait =
      ((Handle.overlappedHelper fs (submitOf fs d) this k buf overlapped wait).1,
        (Handle.overlappedHelper fs (submitOf fs d) this k buf overlapped wait).2,
        l ++ enter (.submit d this (transferLength buf.sizeBytes) s) ++
          if Refused fs s then [] else enter (.query this q)) := by
  obtain ⟨l₁, hl₁⟩ : ∃ l₁, l₁ = l ++ enter (.submit d this (transferLength buf.sizeBytes) s) :=
    ⟨_, rfl⟩
  have hs' : submitOf (recordFiles enter fs) d (k, l) this buf.data
      (transferLength buf.sizeBytes) none (some overlapped) =
        ⟨s.ret, s.bytes, s.state, l₁⟩ := by
    rw [submitOf_recordFiles, recordSubmit, hs, hl₁]
  have hq' : (recordFiles enter fs).getOverlappedResult (s.state, l₁) this overlapped 0
      wait.toUInt32.toInt32 = ⟨q.ret, q.bytes, q.state, l₁ ++ enter (.query this q)⟩ := by
    rw [← hq]
    rfl
  rw [Handle.overlappedHelper_eq hs hq, Handle.overlappedHelper_eq hs' hq', ← hl₁]
  by_cases hrefused : Refused fs s
  · rw [if_pos hrefused, if_pos hrefused, List.append_nil]
    exact if_pos hrefused
  · rw [if_neg hrefused, if_neg hrefused]
    exact if_neg hrefused

end Files

section Ports

variable (enter : PortCall → List α) (sys : System κ ε) (port : CompletionPort) (k : κ)
  (l : List α) (timeout : Option Int64)

theorem post_record (status : CompletionStatus) :
    port.post (recordPorts enter sys) (k, l) status =
      ((port.post sys k status).1, (port.post sys k status).2,
        l ++ enter (.post port.rawHandle)) := by
  simp only [CompletionPort.post, recordPorts]
  split <;> simp_all

theorem get_record : port.get (recordPorts enter sys) (k, l) timeout =
    ((port.get sys k timeout).1, (port.get sys k timeout).2,
      l ++ enter (.get port.rawHandle (duration timeout))) := by
  simp only [CompletionPort.get, recordPorts]
  split <;> simp_all

theorem getMany_record (list : List CompletionStatus) :
    port.getMany (recordPorts enter sys) (k, l) list timeout =
      (port.getMany sys k list timeout).map fun r =>
        (r.1, r.2.1, r.2.2, l ++ enter (.getEx port.rawHandle (listLength list)
          (duration timeout))) := by
  simp only [CompletionPort.getMany, recordPorts]
  split
  · simp_all
  · simp_all [Function.comp_def]

theorem add_record (create : Create κ) (token : UInt64) (handle : HANDLE) :
    CompletionPort.add (recordPorts enter sys) (recordCreate enter create) port (k, l) token
        handle =
      ((CompletionPort.add sys create port k token handle).1,
        (CompletionPort.add sys create port k token handle).2,
        l ++ enter (.create port.rawHandle)) := by
  simp only [CompletionPort.add, recordCreate, recordPorts]
  split <;> simp_all

end Ports

end IocpRecording
