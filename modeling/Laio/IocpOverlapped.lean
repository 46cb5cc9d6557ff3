import Laio.IocpRecording

/-! # What overlapped transfers return

The system answers a submission and a query in any way. Which result a transfer has is
stated over the answers alone, which are recorded next to the state of the kernel. -/
namespace IocpOverlapped

open IocpHandle IocpCompletion IocpTransfer IocpRecording

inductive Answer where
  | submitted
  | submitFailed (code : DWORD)
  | transferred (bytes : DWORD)
  | queryFailed (code : DWORD)
  deriving DecidableEq, Repr

variable {κ ε : Type*} (fs : FileSystem κ ε) (d : Direction)

def submitAnswer (r : Transferred κ) : Answer :=
  if r.ret = 0 then .submitFailed (fs.getLastError r.state) else .submitted

def queryAnswer (r : Transferred κ) : Answer :=
  if r.ret = 0 then .queryFailed (fs.getLastError r.state) else .transferred r.bytes

def answersOf : FileCall κ → List Answer
  | .submit _ _ _ r => [submitAnswer fs r]
  | .query _ r => [queryAnswer fs r]

def traced : FileSystem (κ × List Answer) ε := recordFiles (answersOf fs) fs

structure Call (κ : Type*) where
  this : HANDLE
  kernel : κ
  buf : Span
  overlapped : LPOVERLAPPED

def submission (c : Call κ) : Transferred κ :=
  submitOf fs d c.kernel c.this c.buf.data (transferLength c.buf.sizeBytes) none
    (some c.overlapped)

def query (c : Call κ) (waiting : BOOLEAN) : Transferred κ :=
  fs.getOverlappedResult (submission fs d c).state c.this c.overlapped 0 waiting.toUInt32.toInt32

/-- The answers of the system to a submission with these arguments and, unless that is
refused, to the query. -/
def systemAnswers (c : Call κ) (waiting : BOOLEAN) : List Answer :=
  submitAnswer fs (submission fs d c) ::
    if Refused fs (submission fs d c) then [] else [queryAnswer fs (query fs d c waiting)]

def helper (c : Call κ) (waiting : BOOLEAN) : Result ε (Option UInt64) × κ :=
  Handle.overlappedHelper fs (submitOf fs d) c.this c.kernel c.buf c.overlapped waiting

/-- `read_overlapped` and `write_overlapped` -/
def poll (c : Call κ) : Result ε (Option UInt64) × κ :=
  match d with
  | .read => Handle.readOverlapped fs c.this c.kernel c.buf c.overlapped
  | .write => Handle.writeOverlapped fs c.this c.kernel c.buf c.overlapped

/-- `read_overlapped_wait` and `write_overlapped_wait`; `none` is the undefined access. -/
def wait (c : Call κ) : Option (Result ε UInt64 × κ) :=
  match d with
  | .read => Handle.readOverlappedWait fs c.this c.kernel c.buf c.overlapped
  | .write => Handle.writeOverlappedWait fs c.this c.kernel c.buf c.overlapped

def Call.traced (c : Call κ) : Call (κ × List Answer) :=
  ⟨c.this, (c.kernel, []), c.buf, c.overlapped⟩

def pollAnswers (c : Call κ) : List Answer := (poll (traced fs) d c.traced).2.2

def waitAnswers (c : Call κ) : List Answer :=
  ((wait (traced fs) d c.traced).map (·.2.2)).getD []

/-- The submission succeeded or is pending. -/
def Accepted (answer : Answer) : Prop :=
  answer = .submitted ∨ answer = .submitFailed fs.ioPending

/-- The byte count that was reported, or the error code of the call that failed. -/
def Reported (answers : List Answer) (r : Result ε UInt64) : Prop :=
  (∃ bytes, .transferred bytes ∈ answers ∧ r = .ok bytes.toUInt64) ∨
  (∃ code, .submitFailed code ∈ answers ∧ code ≠ fs.ioPending ∧
    r = .error (fs.winErrorOf code)) ∨
  ∃ code, .queryFailed code ∈ answers ∧ r = .error (fs.winErrorOf code)

/-- The results that the answers allow, for a call that waits or does not. -/
inductive Reports (waiting : BOOLEAN) : List Answer → Result ε (Option UInt64) → Prop where
  | refused {code} : code ≠ fs.ioPending →
      Reports waiting [.submitFailed code] (.error (fs.winErrorOf code))
  | transferred {answer bytes} : Accepted fs answer →
      Reports waiting [answer, .transferred bytes] (.ok (some bytes.toUInt64))
  | incomplete {answer} : Accepted fs answer → waiting = FALSE →
      Reports waiting [answer, .queryFailed fs.ioIncomplete] (.ok none)
  | failed {answer code} : Accepted fs answer → ¬(code = fs.ioIncomplete ∧ waiting = FALSE) →
      Reports waiting [answer, .queryFailed code] (.error (fs.winErrorOf code))

variable {fs d} {waiting : BOOLEAN} {answers : List Answer}

theorem Reports.unique {r r' : Result ε (Option UInt64)} (h : Reports fs waiting answers r)
    (h' : Reports fs waiting answers r') : r = r' := by
  cases h with
  | refused => cases h'; rfl
  | transferred => cases h'; rfl
  | incomplete _ hw =>
    cases h' with
    | incomplete => rfl
    | failed _ hne => exact (hne ⟨rfl, hw⟩).elim
  | failed _ hne =>
    cases h' with
    | incomplete _ hw => exact (hne ⟨rfl, hw⟩).elim
    | failed => rfl

theorem Reports.reported {r : Result ε UInt64} (h : Reports fs waiting answers (r.map some)) :
    Reported fs answers r := by
  generalize hr : r.map some = r' at h
  cases h with
  | @refused code hcode =>
    refine Or.inr (Or.inl ⟨code, List.mem_singleton_self _, hcode, ?_⟩)
    cases r <;> cases hr
    rfl
  | @transferred answer bytes =>
    refine Or.inl ⟨bytes, by simp, ?_⟩
    cases r <;> cases hr
    rfl
  | incomplete => cases r <;> cases hr
  | @failed answer code =>
    refine Or.inr (Or.inr ⟨code, by simp, ?_⟩)
    cases r <;> cases hr
    rfl

theorem Reports.eq_none_iff {r : Result ε (Option UInt64)} (h : Reports fs FALSE answers r) :
    r = .ok none ↔
      ∃ answer, Accepted fs answer ∧ answers = [answer, .queryFailed fs.ioIncomplete] := by
  constructor
  · rintro rfl
    cases h with
    | incomplete haccepted _ => exact ⟨_, haccepted, rfl⟩
  · rintro ⟨answer, haccepted, rfl⟩
    exact h.unique (.incomplete haccepted rfl)

theorem Accepted.eq_ioPending {code : DWORD} (h : Accepted fs (.submitFailed code)) :
    code = fs.ioPending := by
  rcases h with h | h
  · cases h
  · exact Answer.submitFailed.inj h

theorem Reports.eq_error {r : Result ε (Option UInt64)} {code : DWORD}
    (h : Reports fs waiting answers r) (hcode : code ≠ fs.ioPending)
    (hm : .submitFailed code ∈ answers) :
    r = .error (fs.winErrorOf code) ∧ answers = [.submitFailed code] := by
  have hlast : ∀ {answer last : Answer}, .submitFailed code ∈ [answer, last] →
      Accepted fs answer → last = .submitFailed code := by
    intro answer last hmem haccepted
    rcases List.mem_cons.mp hmem with rfl | hmem
    · exact (hcode haccepted.eq_ioPending).elim
    · exact (List.mem_singleton.mp hmem).symm
  cases h with
  | refused =>
    obtain rfl := Answer.submitFailed.inj (List.mem_singleton.mp hm)
    exact ⟨rfl, rfl⟩
  | transferred haccepted => cases hlast hm haccepted
  | incomplete haccepted => cases hlast hm haccepted
  | failed haccepted => cases hlast hm haccepted

variable (fs)

theorem accepted_submitAnswer {s : Transferred κ} (h : ¬Refused fs s) :
    Accepted fs (submitAnswer fs s) := by
  by_cases hret : s.ret = 0
  · have hpending := not_not.mp fun hne => h ⟨hret, hne⟩
    rw [submitAnswer, if_pos hret, hpending]
    exact Or.inr rfl
  · rw [submitAnswer, if_neg hret]
    exact Or.inl rfl

theorem reports_queried {answer : Answer} (haccepted : Accepted fs answer) (waiting : BOOLEAN)
    (q : Transferred κ) :
    Reports fs waiting [answer, queryAnswer fs q] (queried fs waiting q) := by
  rw [queryAnswer, queried]
  by_cases hret : q.ret = 0
  · rw [if_pos hret, if_pos hret]
    by_cases hinc : fs.getLastError q.state = fs.ioIncomplete ∧ waiting = FALSE
    · rw [if_pos hinc, hinc.1]
      exact .incomplete haccepted hinc.2
    · rw [if_neg hinc]
      exact .failed haccepted hinc
  · rw [if_neg hret, if_neg hret]
    exact .transferred haccepted

variable (d) (c : Call κ)

theorem helper_eq (waiting : BOOLEAN) : helper fs d c waiting =
    if Refused fs (submission fs d c) then
      (.error (fs.winErrorOf (fs.getLastError (submission fs d c).state)),
        (submission fs d c).state)
    else
      (queried fs waiting (query fs d c waiting), (query fs d c waiting).state) :=
  Handle.overlappedHelper_eq rfl rfl

theorem helper_traced (waiting : BOOLEAN) : helper (traced fs) d c.traced waiting =
    ((helper fs d c waiting).1, (helper fs d c waiting).2, systemAnswers fs d c waiting) := by
  rw [helper, traced, Call.traced, overlappedHelper_record (answersOf fs) [] rfl rfl]
  rfl

theorem helper_reports (waiting : BOOLEAN) :
    Reports fs waiting (systemAnswers fs d c waiting) (helper fs d c waiting).1 := by
  rw [systemAnswers, helper_eq]
  by_cases hrefused : Refused fs (submission fs d c)
  · rw [if_pos hrefused, if_pos hrefused, submitAnswer, if_pos hrefused.1]
    exact .refused hrefused.2
  · rw [if_neg hrefused, if_neg hrefused]
    exact reports_queried fs (accepted_submitAnswer fs hrefused) waiting _

theorem poll_eq : poll fs d c = helper fs d c FALSE := by
  cases d <;> rfl

theorem wait_eq : wait fs d c = Handle.unwrapped (helper fs d c TRUE) := by
  cases d <;> rfl

theorem poll_traced : poll (traced fs) d c.traced =
    ((poll fs d c).1, (poll fs d c).2, pollAnswers fs d c) := by
  rw [pollAnswers, poll_eq, helper_traced, poll_eq]

theorem pollAnswers_eq : pollAnswers fs d c = systemAnswers fs d c FALSE := by
  rw [pollAnswers, poll_eq, helper_traced]

theorem poll_reports : Reports fs FALSE (pollAnswers fs d c) (poll fs d c).1 := by
  rw [pollAnswers_eq, poll_eq]
  exact helper_reports fs d c FALSE

/-- A waiting call returns, and it recorded what the system answered. -/
theorem wait_reports : ∃ r, wait fs d c = some r ∧
    wait (traced fs) d c.traced = some (r.1, r.2, systemAnswers fs d c TRUE) ∧
    Reports fs TRUE (systemAnswers fs d c TRUE) (r.1.map some) := by
  obtain ⟨r, hr⟩ := Handle.exists_unwrapped
    (Handle.overlappedHelper_wait_ne_none fs (submitOf fs d) c.this c.kernel c.buf c.overlapped)
  have hhelper : helper fs d c TRUE = (r.1.map some, r.2) := Handle.unwrapped_eq_some.mp hr
  have hreports := helper_reports fs d c TRUE
  rw [hhelper] at hreports
  refine ⟨r, (wait_eq fs d c).trans hr, ?_, hreports⟩
  rw [wait_eq, helper_traced, hhelper]
  exact Handle.unwrapped_eq_some.mpr rfl

theorem waitAnswers_eq : waitAnswers fs d c = systemAnswers fs d c TRUE := by
  obtain ⟨r, _, htraced, _⟩ := wait_reports fs d c
  rw [waitAnswers, htraced]
  rfl

theorem wait_eq_error {code : DWORD} (hcode : code ≠ fs.ioPending)
    (hm : .submitFailed code ∈ waitAnswers fs d c) :
    (wait fs d c).map Prod.fst = some (.error (fs.winErrorOf code)) ∧
      waitAnswers fs d c = [.submitFailed code] := by
  rw [waitAnswers_eq] at hm ⊢
  obtain ⟨⟨r, k⟩, hwait, _, h⟩ := wait_reports fs d c
  obtain ⟨hr, hanswers⟩ := h.eq_error hcode hm
  rw [hwait]
  refine ⟨?_, hanswers⟩
  cases r with
  | error err =>
    obtain rfl : err = fs.winErrorOf code := Except.error.inj hr
    rfl
  | ok bytes => cases hr

theorem map_some_injective {r r' : Result ε UInt64} (h : r.map some = r'.map some) : r = r' := by
  cases r <;> cases r' <;> cases h <;> rfl

theorem wait_eq_wait {d' : Direction} {c' : Call κ}
    (h : waitAnswers fs d c = waitAnswers fs d' c') :
    (wait fs d c).map Prod.fst = (wait fs d' c').map Prod.fst := by
  rw [waitAnswers_eq, waitAnswers_eq] at h
  obtain ⟨r, hwait, _, hr⟩ := wait_reports fs d c
  obtain ⟨r', hwait', _, hr'⟩ := wait_reports fs d' c'
  rw [h] at hr
  rw [hwait, hwait', Option.map_some, Option.map_some, map_some_injective (hr.unique hr')]

/-- The recorded run is the run. Its answers are those of the system to the submission with
the arguments of the call and, unless that is refused, to the query, and they determine the
result. Whatever the system answers, a waiting call returns a reported byte count or the
error code of the call that failed, the others report no bytes exactly for an incomplete
query, a refused submission is the result and is not queried, and equal answers to a read and
a write give equal results. -/
theorem overlapped_results (fs : FileSystem κ ε) :
    (∀ d c, poll (traced fs) d c.traced =
        ((poll fs d c).1, (poll fs d c).2, pollAnswers fs d c) ∧
      wait (traced fs) d c.traced =
        (wait fs d c).map fun r => (r.1, r.2, waitAnswers fs d c)) ∧
    (∀ d c, pollAnswers fs d c = systemAnswers fs d c FALSE ∧
      Reports fs FALSE (pollAnswers fs d c) (poll fs d c).1) ∧
    (∀ d c, waitAnswers fs d c = systemAnswers fs d c TRUE ∧
      ∃ r, wait fs d c = some r ∧ Reports fs TRUE (waitAnswers fs d c) (r.1.map some) ∧
        Reported fs (waitAnswers fs d c) r.1) ∧
    (∀ d c, (poll fs d c).1 = .ok none ↔ ∃ answer, Accepted fs answer ∧
      pollAnswers fs d c = [answer, .queryFailed fs.ioIncomplete]) ∧
    (∀ d c code, code ≠ fs.ioPending →
      (.submitFailed code ∈ pollAnswers fs d c →
        (poll fs d c).1 = .error (fs.winErrorOf code) ∧
        pollAnswers fs d c = [.submitFailed code]) ∧
      (.submitFailed code ∈ waitAnswers fs d c →
        (wait fs d c).map Prod.fst = some (.error (fs.winErrorOf code)) ∧
        waitAnswers fs d c = [.submitFailed code])) ∧
    ∀ c c',
      (pollAnswers fs .read c = pollAnswers fs .write c' →
        (poll fs .read c).1 = (poll fs .write c').1) ∧
      (waitAnswers fs .read c = waitAnswers fs .write c' →
        (wait fs .read c).map Prod.fst = (wait fs .write c').map Prod.fst) := by
  refine ⟨?_, ?_, ?_, ?_, ?_, ?_⟩
  · intro d c
    obtain ⟨r, hwait, htraced, _⟩ := wait_reports fs d c
    refine ⟨poll_traced fs d c, ?_⟩
    rw [htraced, hwait, Option.map_some, waitAnswers_eq]
  · intro d c
    exact ⟨pollAnswers_eq fs d c, poll_reports fs d c⟩
  · intro d c
    obtain ⟨r, hwait, _, h⟩ := wait_reports fs d c
    rw [waitAnswers_eq]
    exact ⟨rfl, r, hwait, h, h.reported⟩
  · intro d c
    exact (poll_reports fs d c).eq_none_iff
  · intro d c code hcode
    exact ⟨(poll_reports fs d c).eq_error hcode, wait_eq_error fs d c hcode⟩
  · intro c c'
    refine ⟨?_, wait_eq_wait fs .read c⟩
    intro h
    have hread := poll_reports fs .read c
    rw [h] at hread
    exact hread.unique (poll_reports fs .write c')

end IocpOverlapped
