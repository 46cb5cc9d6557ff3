import Laio.IocpCompletion
import Laio.LibChannel
import Laio.LibExecutions

/-! # Delivery of completion messages

The calls of a port on a documented system send to and receive from one channel. The single
dequeue agrees with the batch one except at the packet of a failed operation. -/
namespace IocpDelivery

open IocpCompletion LibChannel LibExecutions IocpHandle

variable {κ ε : Type*} {sys : System κ ε} {port : CompletionPort} {queue : κ → List Packet}

def packetOf (status : CompletionStatus) : Packet :=
  .posted status.bytesTransferred status.token status.overlapped

inductive Posted (queue : κ → List Packet) (k : κ) (status : CompletionStatus) :
    Result ε Unit → κ → Prop where
  | appended {k'} : queue k' = queue k ++ [packetOf status] → Posted queue k status (.ok ()) k'
  | refused {k' e} : queue k' = queue k → Posted queue k status (.error e) k'

inductive Got (queue : κ → List Packet) (k : κ) : Result ε CompletionStatus → κ → Prop where
  | empty {k' e} : queue k = [] → queue k' = [] → Got queue k (.error e) k'
  | packet {k' p rest status} : queue k = p :: rest → p.failed = false →
      status.message = p.message → queue k' = rest → Got queue k (.ok status) k'
  | dropped {k' p rest e} : queue k = p :: rest → p.failed = true → queue k' = rest →
      Got queue k (.error e) k'

/-- What a successful batch dequeue did: the oldest packets stand at the front of the list
and are what is returned; everything after them is as it was. -/
structure Filled (queue : κ → List Packet) (k : κ) (list filled list' : List CompletionStatus)
    (k' : κ) : Prop where
  filled_eq : filled = list'.take (min list.length (queue k).length)
  rest_eq : list'.drop (min list.length (queue k).length) =
    list.drop (min list.length (queue k).length)
  messages : filled.map CompletionStatus.message =
    ((queue k).take (min list.length (queue k).length)).map Packet.message
  remaining : queue k' = (queue k).drop (min list.length (queue k).length)

inductive GotMany (queue : κ → List Packet) (k : κ) (list : List CompletionStatus) :
    Result ε (List CompletionStatus) → List CompletionStatus → κ → Prop where
  | nothing {k' e} : queue k = [] ∨ list = [] → queue k' = queue k →
      GotMany queue k list (.error e) list k'
  | some {k' filled list'} : Filled queue k list filled list' k' →
      GotMany queue k list (.ok filled) list' k'

theorem post_posted (hd : Documented sys port.rawHandle queue) {k k' : κ}
    {status : CompletionStatus} {r : Result ε Unit} (hcall : port.post sys k status = (r, k')) :
    Posted queue k status r k' := by
  rcases hd.post k status.bytesTransferred status.token status.overlapped with
    ⟨hret, hqueue⟩ | ⟨hret, hqueue⟩
  · obtain ⟨rfl, rfl⟩ := Prod.mk.inj (hcall.symm.trans (if_neg hret))
    exact .appended hqueue
  · obtain ⟨rfl, rfl⟩ := Prod.mk.inj (hcall.symm.trans (if_pos hret))
    exact .refused hqueue

theorem get_got (hd : Documented sys port.rawHandle queue) {k k' : κ} {timeout : Option Int64}
    {r : Result ε CompletionStatus} (hcall : port.get sys k timeout = (r, k')) :
    Got queue k r k' := by
  cases hk : queue k with
  | nil =>
    obtain ⟨hret, hqueue⟩ := hd.get_empty k 0 0 0 (duration timeout) hk
    obtain ⟨rfl, rfl⟩ := Prod.mk.inj (hcall.symm.trans (if_pos hret))
    exact .empty hk hqueue
  | cons p rest =>
    obtain ⟨hbytes, htoken, hoverlapped, hqueue, hret⟩ :=
      hd.get_packet k 0 0 0 (duration timeout) p rest hk
    by_cases hfailed : p.failed = true
    · obtain ⟨rfl, rfl⟩ := Prod.mk.inj (hcall.symm.trans (if_pos (hret.mpr hfailed)))
      exact .dropped hk hfailed hqueue
    · obtain ⟨rfl, rfl⟩ := Prod.mk.inj (hcall.symm.trans (if_neg (mt hret.mp hfailed)))
      refine .packet hk (by simpa using hfailed) ?_ hqueue
      simp only [CompletionStatus.message, CompletionStatus.bytesTransferred,
        CompletionStatus.token, CompletionStatus.overlapped, Packet.message, hbytes, htoken,
        hoverlapped]

section Batch

variable {k : κ} {list : List CompletionStatus} {ms : DWORD} {r : DequeuedMany κ}

theorem getEx_cases (hd : Documented sys port.rawHandle queue) (hlen : list.length < 2 ^ 32)
    (hr : r = sys.getQueuedCompletionStatusEx k port.rawHandle
      (list.map CompletionStatus.rawOverlappedEntry) (listLength list) 0 ms 0) :
    r.ret = 0 ∧ r.entries.map CompletionStatus.mk = list ∧ queue r.state = queue k ∧
      (queue k = [] ∨ list = []) ∨
    r.ret ≠ 0 ∧ r.removed.toNat = min list.length (queue k).length ∧
      (∃ filled : List CompletionStatus,
        r.entries.map CompletionStatus.mk = filled ++ list.drop r.removed.toNat ∧
        filled.map CompletionStatus.message =
          ((queue k).take r.removed.toNat).map Packet.message) ∧
      queue r.state = (queue k).drop r.removed.toNat := by
  have hraw : (list.map CompletionStatus.rawOverlappedEntry).map CompletionStatus.mk = list := by
    simp [Function.comp_def]
  by_cases hqueue : queue k = []
  · obtain ⟨hret, hentries, hempty⟩ :=
      hd.getEx_empty k (list.map CompletionStatus.rawOverlappedEntry) (listLength list) 0 ms 0
        hqueue
    rw [← hr] at hret hentries hempty
    exact Or.inl ⟨hret, by rw [hentries, hraw], hempty.trans hqueue.symm, Or.inl hqueue⟩
  rcases eq_or_ne list [] with rfl | hne
  · obtain ⟨hret, hentries, hsame⟩ := hd.getEx_none k [] 0 ms 0
    change r = sys.getQueuedCompletionStatusEx k port.rawHandle [] 0 0 ms 0 at hr
    rw [← hr] at hret hentries hsame
    by_cases hfail : r.ret = 0
    · exact Or.inl ⟨hfail, by rw [hentries]; rfl, hsame, Or.inr rfl⟩
    · have hzero : r.removed.toNat = 0 := congrArg UInt32.toNat (hret hfail)
      rw [hzero]
      exact Or.inr ⟨hfail, by simp, ⟨[], by rw [hentries]; rfl, rfl⟩, hsame⟩
  · have hpos : 0 < listLength list := by
      rw [UInt32.lt_iff_toNat_lt, listLength_toNat hlen]
      exact List.length_pos_iff.mpr hne
    obtain ⟨hret, hremoved, ⟨filled, hentries, hmessages⟩, hrest⟩ :=
      hd.getEx_packets k (list.map CompletionStatus.rawOverlappedEntry) (listLength list) 0 ms 0
        hqueue hpos (by rw [listLength_toNat hlen, List.length_map])
    rw [← hr] at hret hremoved hentries hmessages hrest
    rw [listLength_toNat hlen] at hremoved
    refine Or.inr ⟨hret, hremoved, ⟨filled.map .mk, ?_, ?_⟩, hrest⟩
    · rw [hentries, List.map_append, List.map_drop, hraw]
    · rw [← hmessages, List.map_map]
      rfl

theorem getMany_gotMany (hd : Documented sys port.rawHandle queue) (hlen : list.length < 2 ^ 32)
    (k : κ) (timeout : Option Int64) :
    ∃ result list' k', port.getMany sys k list timeout = some (result, list', k') ∧
      GotMany queue k list result list' k' := by
  obtain ⟨r, hr⟩ : ∃ r, r = sys.getQueuedCompletionStatusEx k port.rawHandle
    (list.map CompletionStatus.rawOverlappedEntry) (listLength list) 0 (duration timeout) 0 :=
    ⟨_, rfl⟩
  rw [CompletionPort.getMany, ← hr]
  rcases getEx_cases hd hlen hr with
    ⟨hret, hentries, hsame, hnone⟩ | ⟨hret, hremoved, ⟨filled, hentries, hmessages⟩, hrest⟩
  · rw [if_pos hret, hentries]
    exact ⟨_, _, _, rfl, .nothing hnone hsame⟩
  · obtain ⟨n, hn⟩ : ∃ n, n = min list.length (queue k).length := ⟨_, rfl⟩
    rw [hremoved, ← hn] at hentries hmessages hrest
    have hlength : filled.length = n := by
      have := congrArg List.length hmessages
      rw [List.length_map, List.length_map, List.length_take] at this
      omega
    have hfirst : first (filled ++ list.drop n) n = some filled := by
      rw [first, if_pos (by simp [hlength]), List.take_left' hlength]
    rw [if_neg hret, hremoved, ← hn, hentries, hfirst]
    refine ⟨_, _, _, rfl, .some ⟨?_, ?_, ?_, ?_⟩⟩ <;> rw [← hn]
    · exact (List.take_left' hlength).symm
    · exact List.drop_left' hlength
    · exact hmessages
    · exact hrest

theorem getMany_cases (hd : Documented sys port.rawHandle queue) (hlen : list.length < 2 ^ 32)
    {k k' : κ} {timeout : Option Int64} {result : Result ε (List CompletionStatus)}
    {list' : List CompletionStatus}
    (hcall : port.getMany sys k list timeout = some (result, list', k')) :
    GotMany queue k list result list' k' := by
  obtain ⟨_, _, _, hcall', hgot⟩ := getMany_gotMany hd hlen k timeout
  rw [hcall, Option.some.injEq, Prod.mk.injEq, Prod.mk.injEq] at hcall'
  obtain ⟨rfl, rfl, rfl⟩ := hcall'
  exact hgot

end Batch

/-- One port and what went through it; a status counts as posted if `post` succeeded. -/
structure Session (κ : Type*) where
  kernel : κ
  posted : List CompletionStatus
  received : List CompletionStatus

inductive Call where
  | post (bytes : UInt32) (token : UInt64) (overlapped : LPOVERLAPPED)
  | get (timeout : Option Int64)
  | getMany (list : {l : List CompletionStatus // l.length < 2 ^ 32}) (timeout : Option Int64)

def handed {α : Type*} (f : α → List CompletionStatus) : Result ε α → List CompletionStatus
  | .ok a => f a
  | .error _ => []

@[simp] theorem handed_ok {α : Type*} (f : α → List CompletionStatus) (a : α) :
    handed f (.ok a : Result ε α) = f a := rfl

/-- A call that returns; termination by a violated precondition is no step. -/
def Step (sys : System κ ε) (port : CompletionPort) (s : Session κ) : Call → Session κ → Prop
  | .post bytes token overlapped, t =>
    let status := CompletionStatus.create bytes token overlapped
    ∃ r k', port.post sys s.kernel status = (r, k') ∧
      t = ⟨k', s.posted ++ handed (fun _ => [status]) r, s.received⟩
  | .get timeout, t =>
    ∃ r k', port.get sys s.kernel timeout = (r, k') ∧
      t = ⟨k', s.posted, s.received ++ handed (fun status => [status]) r⟩
  | .getMany list timeout, t =>
    ∃ r list' k', port.getMany sys s.kernel list timeout = some (r, list', k') ∧
      t = ⟨k', s.posted, s.received ++ handed id r⟩

/-- The channel that a session implements. All its packets are posted ones. -/
structure Carries (queue : κ → List Packet) (s : Session κ) (c : Lossless Message) : Prop where
  sent : c.sent = s.posted.map CompletionStatus.message
  received : c.received = s.received.map CompletionStatus.message
  pending : c.pending = (queue s.kernel).map Packet.message
  succeeded : ∀ p ∈ queue s.kernel, p.failed = false

theorem step_exists (hd : Documented sys port.rawHandle queue) (s : Session κ) (e : Call) :
    ∃ t, Step sys port s e t := by
  cases e with
  | post bytes token overlapped => exact ⟨_, _, _, rfl, rfl⟩
  | get timeout => exact ⟨_, _, _, rfl, rfl⟩
  | getMany list timeout =>
    obtain ⟨r, list', k', h, _⟩ := getMany_gotMany hd list.2 s.kernel timeout
    exact ⟨_, r, list', k', h, rfl⟩

theorem Carries.same {s t : Session κ} {c : Lossless Message} (h : Carries queue s c)
    (hposted : t.posted = s.posted) (hreceived : t.received = s.received)
    (hqueue : queue t.kernel = queue s.kernel) : Carries queue t c where
  sent := by rw [hposted, h.sent]
  received := by rw [hreceived, h.received]
  pending := by rw [hqueue, h.pending]
  succeeded := by rw [hqueue]; exact h.succeeded

theorem Carries.send {s t : Session κ} {c : Lossless Message} (h : Carries queue s c)
    {status : CompletionStatus} (hposted : t.posted = s.posted ++ [status])
    (hreceived : t.received = s.received)
    (hqueue : queue t.kernel = queue s.kernel ++ [packetOf status]) :
    Carries queue t (c.send status.message) where
  sent := by simp [hposted, h.sent]
  received := by rw [hreceived, Channel.received_send, h.received]
  pending := by
    simp only [hqueue, List.map_append, Channel.pending_send, h.pending]
    rfl
  succeeded q hq := by
    rw [hqueue, List.mem_append, List.mem_singleton] at hq
    rcases hq with hq | rfl
    · exact h.succeeded q hq
    · rfl

theorem Carries.receive {s t : Session κ} {c : Lossless Message} (h : Carries queue s c) {n : ℕ}
    {filled : List CompletionStatus} (hposted : t.posted = s.posted)
    (hreceived : t.received = s.received ++ filled)
    (hmessages : filled.map CompletionStatus.message =
      ((queue s.kernel).take n).map Packet.message)
    (hqueue : queue t.kernel = (queue s.kernel).drop n) : Carries queue t (c.receiveAll n) where
  sent := by rw [hposted, Channel.sent_receiveAll, h.sent]
  received := by simp [hreceived, hmessages, h.received, h.pending]
  pending := by simp [hqueue, h.pending]
  succeeded p hp := by
    rw [hqueue] at hp
    exact h.succeeded p (List.mem_of_mem_drop hp)

theorem carries_step (hd : Documented sys port.rawHandle queue) (s : Session κ) (e : Call)
    (t : Session κ) (h : ∃ c, Carries queue s c) (hs : Step sys port s e t) :
    ∃ c', Carries queue t c' := by
  obtain ⟨c, h⟩ := h
  cases e with
  | post bytes token overlapped =>
    obtain ⟨r, k', hcall, rfl⟩ := hs
    cases post_posted hd hcall with
    | appended hqueue => exact ⟨_, h.send rfl rfl hqueue⟩
    | refused hqueue => exact ⟨c, h.same (List.append_nil _) rfl hqueue⟩
  | get timeout =>
    obtain ⟨r, k', hcall, rfl⟩ := hs
    cases get_got hd hcall with
    | empty hk hqueue => exact ⟨c, h.same rfl (List.append_nil _) (hqueue.trans hk.symm)⟩
    | @packet _ p rest status hk _ hmessage hqueue =>
      have hone : [status].map CompletionStatus.message =
          ((queue s.kernel).take 1).map Packet.message := by
        rw [hk]
        simpa using hmessage
      have hrest : queue k' = (queue s.kernel).drop 1 := by
        rw [hk]
        exact hqueue
      exact ⟨_, h.receive rfl rfl hone hrest⟩
    | @dropped _ p rest _ hk hfailed _ =>
      -- no posted packet is that of a failed operation
      have hok := h.succeeded p (by rw [hk]; exact List.mem_cons_self)
      rw [hok] at hfailed
      cases hfailed
  | getMany list timeout =>
    obtain ⟨r, list', k', hcall, rfl⟩ := hs
    cases getMany_cases hd list.2 hcall with
    | nothing _ hqueue => exact ⟨c, h.same rfl (List.append_nil _) hqueue⟩
    | some hfilled => exact ⟨_, h.receive rfl rfl hfilled.messages hfilled.remaining⟩

/-- What holds between the calls of a session, and of whatever is called next. -/
structure Faithful (sys : System κ ε) (port : CompletionPort) (queue : κ → List Packet)
    (s : Session κ) : Prop where
  conserved : s.received.map CompletionStatus.message ++ (queue s.kernel).map Packet.message =
    s.posted.map CompletionStatus.message
  post_answer : ∀ bytes token overlapped r k',
    port.post sys s.kernel (.create bytes token overlapped) = (r, k') →
      let answer := sys.postQueuedCompletionStatus s.kernel port.rawHandle bytes token overlapped
      k' = answer.2 ∧ (r = .ok () ↔ answer.1 ≠ 0)
  post_ok : ∀ bytes token overlapped k',
    port.post sys s.kernel (.create bytes token overlapped) = (.ok (), k') →
      queue k' = queue s.kernel ++ [.posted bytes token overlapped]
  post_error : ∀ bytes token overlapped e k',
    port.post sys s.kernel (.create bytes token overlapped) = (.error e, k') →
      queue k' = queue s.kernel
  get_error : ∀ timeout e k', port.get sys s.kernel timeout = (.error e, k') →
    queue s.kernel = [] ∧ queue k' = []
  getMany_error : ∀ list timeout e list' k', list.length < 2 ^ 32 →
    port.getMany sys s.kernel list timeout = some (.error e, list', k') →
      (queue s.kernel = [] ∨ list = []) ∧ queue k' = queue s.kernel ∧ list' = list
  getMany_ok : ∀ list timeout filled list' k', list.length < 2 ^ 32 →
    port.getMany sys s.kernel list timeout = some (.ok filled, list', k') →
      Filled queue s.kernel list filled list' k'

theorem Carries.faithful (hd : Documented sys port.rawHandle queue) {s : Session κ}
    {c : Lossless Message} (h : Carries queue s c) : Faithful sys port queue s where
  conserved := by rw [← h.received, ← h.pending, Lossless.law c, h.sent]
  post_answer bytes token overlapped r k' hcall :=
    ⟨CompletionPort.post_state hcall, CompletionPort.post_ok_iff hcall⟩
  post_ok bytes token overlapped k' hcall := by
    cases post_posted hd hcall with
    | appended hqueue => exact hqueue
  post_error bytes token overlapped e k' hcall := by
    cases post_posted hd hcall with
    | refused hqueue => exact hqueue
  get_error timeout e k' hcall := by
    cases get_got hd hcall with
    | empty hk hqueue => exact ⟨hk, hqueue⟩
    | @dropped _ p rest _ hk hfailed _ =>
      have hok := h.succeeded p (by rw [hk]; exact List.mem_cons_self)
      rw [hok] at hfailed
      cases hfailed
  getMany_error list timeout e list' k' hlen hcall := by
    cases getMany_cases hd hlen hcall with
    | nothing hnone hqueue => exact ⟨hnone, hqueue, rfl⟩
  getMany_ok list timeout filled list' k' hlen hcall := by
    cases getMany_cases hd hlen hcall with
    | some hfilled => exact hfilled

/-- Every sequence of calls on a port whose queue starts empty returns, and delivers what
was posted: nothing is lost, doubled, reordered or altered. -/
theorem messages_delivered (hd : Documented sys port.rawHandle queue) {k : κ} (hk : queue k = [])
    (calls : List Call) :
    (∃ t, Execution (Step sys port) ⟨k, [], []⟩ calls t) ∧
    HoldsAlong (Step sys port) (Faithful sys port queue) ⟨k, [], []⟩ calls := by
  refine ⟨execution_exists (step_exists hd) _ _, fun calls₁ t _ h => ?_⟩
  have hstart : ∃ c, Carries queue ⟨k, [], []⟩ c :=
    ⟨.found [], rfl, rfl, by rw [hk]; rfl, by rw [hk]; simp⟩
  obtain ⟨c, hc⟩ := h.invariant (carries_step hd) hstart
  exact hc.faithful hd

theorem messages_delivered_fifo :
    (∃ t, Execution (Step (fifo 1) ⟨1⟩) ⟨[], [], []⟩
      [.post 1 2 4096, .getMany ⟨[.zeroed, .zeroed], by decide⟩ none] t) ∧
    HoldsAlong (Step (fifo 1) ⟨1⟩) (Faithful (fifo 1) ⟨1⟩ id) ⟨[], [], []⟩
      [.post 1 2 4096, .getMany ⟨[.zeroed, .zeroed], by decide⟩ none] :=
  messages_delivered (fifo_documented 1) rfl _

/-- Both calls hand out the same message and leave the same packets, and an error of the
single one removes nothing. -/
structure Agree (sys : System κ ε) (port : CompletionPort) (queue : κ → List Packet) (k : κ) :
    Prop where
  same : ∀ slot timeout timeout', ∃ status k₁ status' k₂,
    port.get sys k timeout = (.ok status, k₁) ∧
    port.getMany sys k [slot] timeout' = some (.ok [status'], [status'], k₂) ∧
    status.message = status'.message ∧ queue k₁ = queue k₂
  kept : ∀ timeout e k', port.get sys k timeout = (.error e, k') → queue k' = queue k

theorem getMany_one (hd : Documented sys port.rawHandle queue) {k : κ} {p : Packet}
    {rest : List Packet} (hk : queue k = p :: rest) (slot : CompletionStatus)
    (timeout : Option Int64) :
    ∃ status k', port.getMany sys k [slot] timeout = some (.ok [status], [status], k') ∧
      status.message = p.message ∧ queue k' = rest := by
  have hlen : [slot].length < 2 ^ 32 := by simp
  obtain ⟨r, list', k', hcall, hgot⟩ := getMany_gotMany hd hlen k timeout
  cases hgot with
  | nothing hnone _ => simp [hk] at hnone
  | @some _ filled _ hfilled =>
    obtain ⟨hfilled, hrest, hmessages, hqueue⟩ := hfilled
    have hone : min [slot].length (queue k).length = 1 := by
      rw [hk]
      simp
    rw [hone] at hfilled hrest hmessages hqueue
    rw [hk] at hmessages hqueue
    have hlist : list' = filled := by
      rw [← List.take_append_drop 1 list', hrest, ← hfilled]
      exact List.append_nil _
    obtain ⟨status, rfl, hmessage⟩ : ∃ status, filled = [status] ∧ status.message = p.message := by
      simpa [List.map_eq_cons_iff] using hmessages
    exact ⟨status, k', by rw [hcall, hlist], hmessage, hqueue⟩

theorem dequeues_agree_iff (hd : Documented sys port.rawHandle queue) {k : κ} {p : Packet}
    {rest : List Packet} (hk : queue k = p :: rest) :
    Agree sys port queue k ↔ p.failed = false := by
  constructor
  · intro h
    obtain ⟨status, k₁, _, _, hget, _⟩ := h.same .zeroed none none
    cases get_got hd hget with
    | packet hk' hok _ _ =>
      obtain ⟨rfl, rfl⟩ := List.cons.inj (hk.symm.trans hk')
      exact hok
  · intro hok
    have hget : ∀ timeout, ∃ status k', port.get sys k timeout = (.ok status, k') ∧
        status.message = p.message ∧ queue k' = rest := by
      intro timeout
      obtain ⟨⟨r, k'⟩, hcall⟩ : ∃ answer, port.get sys k timeout = answer := ⟨_, rfl⟩
      cases get_got hd hcall with
      | empty hk' _ => simp [hk] at hk'
      | @packet _ p' rest' status hk' _ hmessage hqueue =>
        obtain ⟨rfl, rfl⟩ := List.cons.inj (hk.symm.trans hk')
        exact ⟨status, k', hcall, hmessage, hqueue⟩
      | dropped hk' hfailed _ =>
        obtain ⟨rfl, rfl⟩ := List.cons.inj (hk.symm.trans hk')
        simp [hok] at hfailed
    refine ⟨fun slot timeout timeout' => ?_, fun timeout e k' hcall => ?_⟩
    · obtain ⟨status, k₁, hcall, hmessage, hqueue⟩ := hget timeout
      obtain ⟨status', k₂, hmany, hmessage', hqueue'⟩ := getMany_one hd hk slot timeout'
      exact ⟨status, k₁, status', k₂, hcall, hmany, hmessage.trans hmessage'.symm,
        hqueue.trans hqueue'.symm⟩
    · obtain ⟨status, k₁, hcall', _⟩ := hget timeout
      rw [hcall] at hcall'
      cases hcall'

theorem dequeues_agree_iff_fifo :
    Agree (fifo 1) ⟨1⟩ id [.posted 7 8 4096] ↔ (Packet.posted 7 8 4096).failed = false :=
  dequeues_agree_iff (fifo_documented 1) rfl

theorem failed_packet_dropped :
    ¬ ∀ k : List Packet, k ≠ [] → Agree (fifo 1) ⟨1⟩ id k := by
  intro h
  obtain ⟨status, k₁, _, _, hget, _⟩ :=
    (h [⟨0, 8, 4096, true, by decide⟩] (by decide)).same .zeroed none none
  cases hget

end IocpDelivery
