import Laio.IocpBatching
import Laio.IocpOwnership

/-! # Ports in moving wrappers

Any number of ports is used through wrappers that are constructed, moved, assigned and
destroyed in between. The messages stay with the raw handle, whichever wrapper holds it. -/
namespace IocpPorts

open LibExecutions LibChannel IocpHandle IocpCompletion IocpOwnership
open IocpDelivery hiding Step
open IocpBatching

variable {κ ε : Type*} (sys : System κ ε) (queue : HANDLE → κ → List Packet)

/-- Every raw handle but null is documented as a port, with a queue of its own that the calls
on other raw handles leave alone. No call with null succeeds. -/
structure DocumentedPorts : Prop where
  port : ∀ h, h ≠ nullptr → Documented sys h (queue h)
  post_apart : ∀ k h bytes key overlapped h', h' ≠ h →
    queue h' (sys.postQueuedCompletionStatus k h bytes key overlapped).2 = queue h' k
  get_apart : ∀ k h bytes key overlapped ms h', h' ≠ h →
    queue h' (sys.getQueuedCompletionStatus k h bytes key overlapped ms).state = queue h' k
  getEx_apart : ∀ k h entries len removed ms alertable h', h' ≠ h →
    queue h' (sys.getQueuedCompletionStatusEx k h entries len removed ms alertable).state =
      queue h' k
  post_null : ∀ k bytes key overlapped,
    (sys.postQueuedCompletionStatus k nullptr bytes key overlapped).1 = 0
  get_null : ∀ k bytes key overlapped ms,
    (sys.getQueuedCompletionStatus k nullptr bytes key overlapped ms).ret = 0
  getEx_null : ∀ k entries len removed ms alertable,
    (sys.getQueuedCompletionStatusEx k nullptr entries len removed ms alertable).ret = 0

structure Log where
  sent : List Packet
  received : List CompletionStatus

structure Machine (κ : Type*) where
  world : World
  kernel : κ
  log : HANDLE → Log

inductive Event where
  | own (e : IocpHandle.Event)
  | call (a : Addr) (c : Call)
  | arrive (h : HANDLE) (p : Packet)
  | outside

/-- The raw handles that the wrappers have acquired, and neither closed nor extracted. -/
def Open (w : World) (h : HANDLE) : Prop := h ∈ w.given ∧ h ∉ w.closed ∧ h ∉ w.extracted

/-- The log of a newly acquired port starts with what is queued. -/
def acquire (e : IocpHandle.Event) (k : κ) (log : HANDLE → Log) (h : HANDLE) : Log :=
  if h ∈ acquired e then ⟨queue h k, []⟩ else log h

/-- The ports that stay open keep their queues while wrappers are created, moved or destroyed,
and while other parts of the program run. Packets of completions arrive at any time. -/
inductive Step : Machine κ → Event → Machine κ → Prop where
  | own {m e w k} : IocpHandle.Step m.world e w →
      (∀ h, Open w h → h ∉ acquired e → queue h k = queue h m.kernel) →
      Step m (.own e) ⟨w, k, acquire queue e k m.log⟩
  | call {m a c k posted received} : m.world.At .completionPort a →
      IocpDelivery.Step sys ⟨m.world.rawHandle a⟩ ⟨m.kernel, [], []⟩ c ⟨k, posted, received⟩ →
      Step m (.call a c) ⟨m.world, k, Function.update m.log (m.world.rawHandle a)
        ⟨(m.log (m.world.rawHandle a)).sent ++ posted.map packetOf,
          (m.log (m.world.rawHandle a)).received ++ received⟩⟩
  | arrive {m h p k} : Open m.world h → queue h k = queue h m.kernel ++ [p] →
      (∀ h', Open m.world h' → h' ≠ h → queue h' k = queue h' m.kernel) →
      Step m (.arrive h p)
        ⟨m.world, k, Function.update m.log h ⟨(m.log h).sent ++ [p], (m.log h).received⟩⟩
  | outside {m k} : (∀ h, Open m.world h → queue h k = queue h m.kernel) →
      Step m .outside ⟨m.world, k, m.log⟩

def start (k : κ) : Machine κ := ⟨initial, k, fun _ => ⟨[], []⟩⟩

variable {sys queue}

inductive Effect (q q' : List Packet) (posted received : List CompletionStatus) : Prop where
  | sends {status} : posted = [status] → received = [] → q' = q ++ [packetOf status] →
      Effect q q' posted received
  | takes {n out} : posted = [] →
      received.map CompletionStatus.message = out.map Packet.message → out.Sublist (q.take n) →
      ((q.take n).filter succeeded).Sublist out → q' = q.drop n → Effect q q' posted received

section Calls

variable {port : CompletionPort} {k k' : κ} {c : Call} {posted received : List CompletionStatus}

theorem call_effect (hd : Documented sys port.rawHandle (queue port.rawHandle))
    (hs : IocpDelivery.Step sys port ⟨k, [], []⟩ c ⟨k', posted, received⟩) :
    Effect (queue port.rawHandle k) (queue port.rawHandle k') posted received := by
  have hdequeue : IsDequeue c →
      Effect (queue port.rawHandle k) (queue port.rawHandle k') posted received := by
    intro hc
    have hdrained := drained_run hd (.single hs) (fun e he => List.mem_singleton.mp he ▸ hc)
    obtain ⟨hleft, out, hout, hordered, hkept⟩ := hdrained.served
    exact .takes hdrained.posted hout hordered hkept hleft
  cases c with
  | get timeout => exact hdequeue trivial
  | getMany list timeout => exact hdequeue trivial
  | post bytes token overlapped =>
    obtain ⟨r, k₁, hcall, ht⟩ := hs
    obtain ⟨rfl, rfl, rfl⟩ := Session.mk.inj ht
    cases post_posted hd hcall with
    | appended hqueue => exact .sends rfl rfl hqueue
    | refused hqueue => exact @Effect.takes _ _ [] [] 0 [] rfl rfl (.refl _) (.refl _) hqueue

theorem call_apart (hd : DocumentedPorts sys queue)
    (hs : IocpDelivery.Step sys port ⟨k, [], []⟩ c ⟨k', posted, received⟩) {h : HANDLE}
    (hne : h ≠ port.rawHandle) : queue h k' = queue h k := by
  cases c with
  | post bytes token overlapped =>
    obtain ⟨r, k₁, hcall, ht⟩ := hs
    obtain ⟨rfl, _, _⟩ := Session.mk.inj ht
    rw [CompletionPort.post_state hcall]
    exact hd.post_apart _ _ _ _ _ _ hne
  | get timeout =>
    obtain ⟨r, k₁, hcall, ht⟩ := hs
    obtain ⟨rfl, _, _⟩ := Session.mk.inj ht
    rw [CompletionPort.get_state hcall]
    exact hd.get_apart _ _ _ _ _ _ _ hne
  | getMany list timeout =>
    obtain ⟨r, list', k₁, hcall, ht⟩ := hs
    obtain ⟨rfl, _, _⟩ := Session.mk.inj ht
    rw [CompletionPort.getMany_state hcall]
    exact hd.getEx_apart _ _ _ _ _ _ _ _ hne

theorem call_null (hd : DocumentedPorts sys queue) (hnull : port.rawHandle = nullptr)
    (hs : IocpDelivery.Step sys port ⟨k, [], []⟩ c ⟨k', posted, received⟩) :
    posted = [] ∧ received = [] := by
  obtain ⟨_⟩ := port
  subst hnull
  cases c with
  | post bytes token overlapped =>
    obtain ⟨r, k₁, hcall, ht⟩ := hs
    obtain ⟨_, rfl, rfl⟩ := Session.mk.inj ht
    rw [CompletionPort.post, if_pos (hd.post_null _ _ _ _)] at hcall
    obtain ⟨rfl, _⟩ := Prod.mk.inj hcall
    exact ⟨rfl, rfl⟩
  | get timeout =>
    obtain ⟨r, k₁, hcall, ht⟩ := hs
    obtain ⟨_, rfl, rfl⟩ := Session.mk.inj ht
    rw [CompletionPort.get, if_pos (hd.get_null _ _ _ _ _)] at hcall
    obtain ⟨rfl, _⟩ := Prod.mk.inj hcall
    exact ⟨rfl, rfl⟩
  | getMany list timeout =>
    obtain ⟨r, list', k₁, hcall, ht⟩ := hs
    obtain ⟨_, rfl, rfl⟩ := Session.mk.inj ht
    rw [CompletionPort.getMany, if_pos (hd.getEx_null _ _ _ _ _ _)] at hcall
    obtain ⟨rfl, _⟩ := Prod.mk.inj (Option.some.inj hcall)
    exact ⟨rfl, rfl⟩

end Calls

structure Carries (log : Log) (pending : List Packet) (c : Channel succeeded) : Prop where
  sent : c.sent = log.sent
  pending : c.pending = pending
  received : log.received.map CompletionStatus.message = c.received.map Packet.message

theorem Carries.effect {log : Log} {q q' : List Packet} {c : Channel succeeded}
    {posted received : List CompletionStatus} (h : Carries log q c)
    (he : Effect q q' posted received) : ∃ c',
      Carries ⟨log.sent ++ posted.map packetOf, log.received ++ received⟩ q' c' := by
  cases he with
  | @sends status hposted hreceived hq =>
    refine ⟨c.send (packetOf status), ?_, ?_, ?_⟩
    · simp [hposted, h.sent]
    · simp [hq, h.pending]
    · simp [hreceived, h.received]
  | @takes n out hposted hreceived hordered hkept hq =>
    rw [← h.pending] at hordered hkept
    refine ⟨c.receive n out hordered hkept, ?_, ?_, ?_⟩
    · simp [hposted, h.sent]
    · simp [hq, h.pending]
    · simp [hreceived, h.received]

variable (queue)

structure Kept (m : Machine κ) : Prop where
  accounted : Accounted m.world
  carries : ∀ h, Open m.world h → ∃ c, Carries (m.log h) (queue h m.kernel) c
  null : m.log nullptr = ⟨[], []⟩

theorem kept_start (k : κ) : Kept queue (start k) where
  accounted := accounted_initial
  carries h hopen := absurd hopen.1 (Multiset.notMem_zero h)
  null := rfl

variable {queue}

theorem Open.ne_nullptr {w : World} (hw : Accounted w) {h : HANDLE} (hopen : Open w h) :
    h ≠ nullptr := by
  rintro rfl
  exact hw.given_nonnull hopen.1

theorem open_of_live {w : World} (hw : Accounted w) {a : Addr} (ha : a ∈ w.live)
    (hne : w.rawHandle a ≠ nullptr) : Open w (w.rawHandle a) := by
  obtain ⟨L, hL⟩ := hw.ledger
  have hheld : w.rawHandle a ∈ L.held := by
    rw [hL.held]
    exact mem_held.mpr ⟨hne, a, ha, rfl⟩
  have hsettled := Multiset.disjoint_left.mp L.settled_separate.2 hheld
  rw [hL.closed, hL.extracted, Multiset.mem_add, not_or] at hsettled
  refine ⟨?_, hsettled⟩
  rw [← hL.given]
  exact L.mem_given.mpr (Or.inl (Or.inl (Or.inl hheld)))

theorem open_before {w w' : World} {e : IocpHandle.Event} (hs : IocpHandle.Step w e w')
    {h : HANDLE} (hopen : Open w' h) (hold : h ∉ acquired e) : Open w h := by
  obtain ⟨c, hb⟩ := step_books hs
  obtain ⟨hgiven, hclosed, hextracted⟩ := hopen
  rw [hb.given, Multiset.mem_add] at hgiven
  rw [hb.closed, Multiset.mem_add, not_or] at hclosed
  rw [hb.extracted, Multiset.mem_add, not_or] at hextracted
  exact ⟨hgiven.resolve_left hold, hclosed.2, hextracted.2⟩

theorem kept_own {m : Machine κ} {e : IocpHandle.Event} {w : World} {k : κ} (hm : Kept queue m)
    (hs : IocpHandle.Step m.world e w)
    (hkernel : ∀ h, Open w h → h ∉ acquired e → queue h k = queue h m.kernel) :
    Kept queue ⟨w, k, acquire queue e k m.log⟩ := by
  refine ⟨accounted_step m.world e w hm.accounted hs, fun h hopen => ?_, ?_⟩
  · change ∃ c, Carries (acquire queue e k m.log h) (queue h k) c
    by_cases hnew : h ∈ acquired e
    · rw [acquire, if_pos hnew]
      exact ⟨.found (queue h k), rfl, rfl, rfl⟩
    · rw [acquire, if_neg hnew, hkernel h hopen hnew]
      exact hm.carries h (open_before hs hopen hnew)
  · exact (if_neg (nullptr_notMem_acquired e)).trans hm.null

theorem Kept.update {m : Machine κ} (hm : Kept queue m) {h : HANDLE} {k : κ} {log : Log}
    (hapart : ∀ h', Open m.world h' → h' ≠ h → queue h' k = queue h' m.kernel)
    (hopen : Open m.world h → ∃ c, Carries log (queue h k) c)
    (hnull : h = nullptr → log = ⟨[], []⟩) :
    Kept queue ⟨m.world, k, Function.update m.log h log⟩ := by
  refine ⟨hm.accounted, fun h' hopen' => ?_, ?_⟩
  · change ∃ c, Carries (Function.update m.log h log h') (queue h' k) c
    by_cases heq : h' = h
    · subst heq
      rw [Function.update_self]
      exact hopen hopen'
    · rw [Function.update_of_ne heq, hapart h' hopen' heq]
      exact hm.carries h' hopen'
  · change Function.update m.log h log nullptr = _
    by_cases heq : h = nullptr
    · rw [heq, Function.update_self, hnull heq]
    · rw [Function.update_of_ne (Ne.symm heq)]
      exact hm.null

theorem kept_call {m : Machine κ} {a : Addr} {c : Call} {k : κ}
    {posted received : List CompletionStatus} (hd : DocumentedPorts sys queue)
    (hm : Kept queue m)
    (hs : IocpDelivery.Step sys ⟨m.world.rawHandle a⟩ ⟨m.kernel, [], []⟩ c ⟨k, posted, received⟩) :
    Kept queue ⟨m.world, k, Function.update m.log (m.world.rawHandle a)
      ⟨(m.log (m.world.rawHandle a)).sent ++ posted.map packetOf,
        (m.log (m.world.rawHandle a)).received ++ received⟩⟩ := by
  apply hm.update
  · intro h _ hne
    exact call_apart hd hs hne
  · intro hopen
    obtain ⟨C, hC⟩ := hm.carries _ hopen
    exact hC.effect (call_effect (hd.port _ (hopen.ne_nullptr hm.accounted)) hs)
  · intro hnull
    obtain ⟨rfl, rfl⟩ := call_null hd hnull hs
    rw [hnull, hm.null]
    rfl

theorem kept_arrive {m : Machine κ} {h : HANDLE} {p : Packet} {k : κ} (hm : Kept queue m)
    (hopen : Open m.world h) (hqueue : queue h k = queue h m.kernel ++ [p])
    (hapart : ∀ h', Open m.world h' → h' ≠ h → queue h' k = queue h' m.kernel) :
    Kept queue
      ⟨m.world, k, Function.update m.log h ⟨(m.log h).sent ++ [p], (m.log h).received⟩⟩ := by
  apply hm.update hapart
  · intro _
    obtain ⟨C, hC⟩ := hm.carries h hopen
    refine ⟨C.send p, ?_, ?_, hC.received⟩
    · simp [hC.sent]
    · simp [hqueue, hC.pending]
  · intro hnull
    exact (hopen.ne_nullptr hm.accounted hnull).elim

theorem kept_step (hd : DocumentedPorts sys queue) (m : Machine κ) (e : Event) (m' : Machine κ)
    (hm : Kept queue m) (hs : Step sys queue m e m') : Kept queue m' := by
  cases hs with
  | own hstep hkernel => exact kept_own hm hstep hkernel
  | call ha hcall => exact kept_call hd hm hcall
  | arrive hopen hqueue hapart => exact kept_arrive hm hopen hqueue hapart
  | outside hkernel =>
    refine ⟨hm.accounted, fun h hopen => ?_, hm.null⟩
    rw [hkernel h hopen]
    exact hm.carries h hopen

/-- What was taken from a port was handed out in order, up to packets of failed operations,
and if no operation failed, all of it. -/
structure InOrder (log : Log) (pending : List Packet) : Prop where
  ordered : ∃ taken out, log.sent = taken ++ pending ∧
    log.received.map CompletionStatus.message = out.map Packet.message ∧
    out.Sublist taken ∧ (taken.filter succeeded).Sublist out
  lossless : (∀ p ∈ log.sent, p.failed = false) →
    log.received.map CompletionStatus.message ++ pending.map Packet.message =
      log.sent.map Packet.message

theorem Carries.inOrder {log : Log} {pending : List Packet} {c : Channel succeeded}
    (h : Carries log pending c) : InOrder log pending := by
  constructor
  · refine ⟨c.taken, c.received, ?_, h.received, c.ordered, c.kept⟩
    rw [← h.sent, ← h.pending]
    exact c.law.symm
  · intro hok
    rw [← h.sent] at hok
    rw [h.received, ← h.pending, ← h.sent, ← List.map_append, c.received_append_pending]
    intro p hp
    rw [succeeded, hok p hp]
    rfl

/-- Every open port is in order, every live wrapper holds an open port or nothing, and through
the wrappers that hold nothing no message ever went. -/
structure PortsInOrder (queue : HANDLE → κ → List Packet) (m : Machine κ) : Prop where
  ports : ∀ h, Open m.world h → InOrder (m.log h) (queue h m.kernel)
  wrappers : ∀ a ∈ m.world.live, m.world.rawHandle a ≠ nullptr → Open m.world (m.world.rawHandle a)
  empty : m.log nullptr = ⟨[], []⟩

theorem Kept.portsInOrder {m : Machine κ} (h : Kept queue m) : PortsInOrder queue m := by
  refine ⟨fun x hopen => ?_, fun a => open_of_live h.accounted, h.null⟩
  obtain ⟨c, hc⟩ := h.carries x hopen
  exact hc.inOrder

/-- However the wrappers of any number of ports are created, moved, assigned, destroyed and
called, each port delivers what entered its queue in order and to no other port's callers,
and only packets of failed operations are withheld. -/
theorem ports_in_order (hd : DocumentedPorts sys queue) (k : κ) (es : List Event) :
    HoldsAlong (Step sys queue) (PortsInOrder queue) (start k) es := by
  intro es₁ m _ h
  exact (h.invariant (kept_step hd) (kept_start queue k)).portsInOrder

def fleet : System (HANDLE → List Packet) Unit where
  postQueuedCompletionStatus k h bytes key overlapped :=
    if h = nullptr then (0, k) else
      let r := (fifo h).postQueuedCompletionStatus (k h) h bytes key overlapped
      (r.1, Function.update k h r.2)
  getQueuedCompletionStatus k h bytes key overlapped ms :=
    if h = nullptr then ⟨0, bytes, key, overlapped, k⟩ else
      let r := (fifo h).getQueuedCompletionStatus (k h) h bytes key overlapped ms
      ⟨r.ret, r.bytes, r.token, r.overlapped, Function.update k h r.state⟩
  getQueuedCompletionStatusEx k h entries len removed ms alertable :=
    if h = nullptr then ⟨0, entries, removed, k⟩ else
      let r := (fifo h).getQueuedCompletionStatusEx (k h) h entries len removed ms alertable
      ⟨r.ret, r.entries, r.removed, Function.update k h r.state⟩
  winError _ := ()

def fleetQueue (h : HANDLE) (k : HANDLE → List Packet) : List Packet := k h

theorem fleet_port {h : HANDLE} (hne : h ≠ nullptr) : Documented fleet h (fleetQueue h) where
  post k bytes key overlapped := by
    simpa [fleet, fleetQueue, hne] using (fifo_documented h).post (k h) bytes key overlapped
  get_empty k bytes key overlapped ms hk := by
    simpa [fleet, fleetQueue, hne] using
      (fifo_documented h).get_empty (k h) bytes key overlapped ms hk
  get_packet k bytes key overlapped ms p rest hk := by
    simpa [fleet, fleetQueue, hne] using
      (fifo_documented h).get_packet (k h) bytes key overlapped ms p rest hk
  getEx_empty k entries len removed ms alertable hk := by
    simpa [fleet, fleetQueue, hne] using
      (fifo_documented h).getEx_empty (k h) entries len removed ms alertable hk
  getEx_none k entries removed ms alertable := by
    simpa [fleet, fleetQueue, hne] using
      (fifo_documented h).getEx_none (k h) entries removed ms alertable
  getEx_packets k entries len removed ms alertable hk hlen hfit := by
    simpa [fleet, fleetQueue, hne] using
      (fifo_documented h).getEx_packets (k h) entries len removed ms alertable hk hlen hfit

theorem fleet_documented : DocumentedPorts fleet fleetQueue where
  port _ hne := fleet_port hne
  post_apart k h bytes key overlapped h' hne := by
    simp only [fleet, fleetQueue]
    split
    · rfl
    · exact Function.update_of_ne hne _ _
  get_apart k h bytes key overlapped ms h' hne := by
    simp only [fleet, fleetQueue]
    split
    · rfl
    · exact Function.update_of_ne hne _ _
  getEx_apart k h entries len removed ms alertable h' hne := by
    simp only [fleet, fleetQueue]
    split
    · rfl
    · exact Function.update_of_ne hne _ _
  post_null _ _ _ _ := rfl
  get_null _ _ _ _ _ := rfl
  getEx_null _ _ _ _ _ _ := rfl

theorem ports_in_order_fleet : ∃ m,
    Execution (Step fleet fleetQueue) (start fun _ => [])
      [.own (.fromRawHandle 0 1 5), .call 0 (.post 9 7 4096),
        .own (.moveConstruct .completionPort 2 0), .call 0 (.get none), .call 2 (.get none)] m ∧
    PortsInOrder fleetQueue m ∧ (m.log 5).received ≠ [] := by
  have hrun : ∃ m, Execution (Step fleet fleetQueue) (start fun _ => [])
      [.own (.fromRawHandle 0 1 5), .call 0 (.post 9 7 4096),
        .own (.moveConstruct .completionPort 2 0), .call 0 (.get none), .call 2 (.get none)] m ∧
      (m.log 5).received ≠ [] := by
    refine ⟨_, .tail (.tail (.tail (.tail (.single (.own ⟨by decide, rfl⟩ fun _ _ _ => rfl))
      (.call (by decide) ⟨_, _, rfl, rfl⟩)) (.own ⟨by decide, rfl⟩ fun _ _ _ => rfl))
      (.call (by decide) ⟨_, _, rfl, rfl⟩)) (.call (by decide) ⟨_, _, rfl, rfl⟩), ?_⟩
    exact List.cons_ne_nil _ _
  obtain ⟨m, hm, hreceived⟩ := hrun
  exact ⟨m, hm, ports_in_order fleet_documented _ _ _ m (List.prefix_refl _) hm, hreceived⟩

end IocpPorts
