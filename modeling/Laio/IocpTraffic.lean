import Laio.IocpDelivery
import Laio.IocpOverlapped
import Laio.LibTransit
import Mathlib.Logic.Relation

/-! # From the overlapped call to the completion port

Sockets are added to a port, transfers are started through them, and the packets of their
completions arrive in the queue between the calls and during them. -/
namespace IocpTraffic

open LibExecutions LibTransit IocpHandle IocpCompletion IocpTransfer Relation
open IocpDelivery hiding Call Step
open IocpOverlapped hiding Call

structure Origin where
  token : UInt64
  overlapped : LPOVERLAPPED
  deriving DecidableEq, Repr

def originOf (m : Message) : Origin := ⟨m.token, m.overlapped⟩

def origins (ms : List Message) : Multiset Origin := ↑(ms.map originOf)

@[simp] theorem origins_nil : origins [] = 0 := rfl

@[simp] theorem origins_append (ms ns : List Message) :
    origins (ms ++ ns) = origins ms + origins ns := by
  simp [origins]

@[simp] theorem origins_singleton (m : Message) : origins [m] = {originOf m} := rfl

/-- The queued packets of a port, and the accepted operations without a packet yet. -/
structure Stock where
  queue : List Packet
  inFlight : Multiset Origin

namespace Stock

def queued (s : Stock) : Multiset Origin := origins (s.queue.map Packet.message)

def start (s : Stock) (new : Multiset Origin) : Stock := ⟨s.queue, new + s.inFlight⟩

inductive Completes : Stock → Stock → Prop where
  | packet {queue inFlight} (p : Packet) :
      Completes ⟨queue, {originOf p.message} + inFlight⟩ ⟨queue ++ [p], inFlight⟩

theorem Completes.total {s t : Stock} (h : Completes s t) :
    t.queued + t.inFlight = s.queued + s.inFlight := by
  cases h with
  | packet p => simp [queued, add_assoc]

theorem total_of_reflTransGen {s t : Stock} (h : ReflTransGen Completes s t) :
    t.queued + t.inFlight = s.queued + s.inFlight := by
  induction h with
  | refl => rfl
  | tail _ hlast ih => exact hlast.total.trans ih

end Stock

/-- What a state of the kernel says about one port: its stock, and the keys of the objects
that are associated with it. -/
structure View (κ : Type*) where
  stock : κ → Stock
  keyOf : κ → HANDLE → Option ULONG_PTR

def View.queue {κ : Type*} (v : View κ) (k : κ) : List Packet := (v.stock k).queue

def started (keys : HANDLE → Option UInt64) (this : HANDLE) (overlapped : LPOVERLAPPED) :
    Multiset Origin :=
  match keys this with
  | some key => {⟨key, overlapped⟩}
  | none => 0

variable {κ ε : Type*} (sys : System κ ε) (fs : FileSystem κ ε) (create : Create κ)

/-- The documented behaviour of the system around one port. The calls on the port leave the
operations in flight alone, an object is associated unless null is returned, and a transfer
that is not refused is an operation of the key of its object. Operations may end during a
submission and during a query. -/
structure DocumentedIo (port : HANDLE) (v : View κ) : Prop where
  packets : Documented sys port v.queue
  post_keeps : ∀ k bytes key overlapped,
    let k' := (sys.postQueuedCompletionStatus k port bytes key overlapped).2
    (v.stock k').inFlight = (v.stock k).inFlight ∧ v.keyOf k' = v.keyOf k
  get_keeps : ∀ k bytes key overlapped ms,
    let k' := (sys.getQueuedCompletionStatus k port bytes key overlapped ms).state
    (v.stock k').inFlight = (v.stock k).inFlight ∧ v.keyOf k' = v.keyOf k
  getEx_keeps : ∀ k entries len removed ms alertable,
    let k' := (sys.getQueuedCompletionStatusEx k port entries len removed ms alertable).state
    (v.stock k').inFlight = (v.stock k).inFlight ∧ v.keyOf k' = v.keyOf k
  associate : ∀ k handle key,
    let r := create k handle port key 0
    v.stock r.2 = v.stock k ∧ v.keyOf r.2 =
      if r.1 = nullptr then v.keyOf k else Function.update (v.keyOf k) handle (some key)
  submit : ∀ d k this data len overlapped,
    let r := submitOf fs d k this data len none (some overlapped)
    let new := if Refused fs r then 0 else started (v.keyOf k) this overlapped
    ReflTransGen Stock.Completes ((v.stock k).start new) (v.stock r.state) ∧
      v.keyOf r.state = v.keyOf k
  query : ∀ k this overlapped bytes wait,
    let r := fs.getOverlappedResult k this overlapped bytes wait
    ReflTransGen Stock.Completes (v.stock k) (v.stock r.state) ∧ v.keyOf r.state = v.keyOf k

/-- A program around one port: the tokens its sockets were added with, and what went in
and came out. A packet that `get` removes and does not hand out is lost. -/
structure Traffic (κ : Type*) where
  kernel : κ
  tokens : HANDLE → Option UInt64
  posted : List CompletionStatus
  submitted : Multiset Origin
  received : List CompletionStatus
  lost : List Packet

inductive Event where
  | addSocket (token : UInt64) (rawSocket : HANDLE)
  | transfer (d : Direction) (waiting : Bool) (this : HANDLE) (buf : Span)
      (overlapped : LPOVERLAPPED)
  | post (bytes : UInt32) (token : UInt64) (overlapped : LPOVERLAPPED)
  | get (timeout : Option Int64)
  | getMany (list : {l : List CompletionStatus // l.length < 2 ^ 32}) (timeout : Option Int64)
  | complete

def afterTransfer (d : Direction) (waiting : Bool) (c : IocpOverlapped.Call κ) : Option κ :=
  if waiting then (wait fs d c).map Prod.snd else some (poll fs d c).2

def added (s : Traffic κ) (rawSocket : HANDLE) (token : UInt64) :
    Result ε Unit → HANDLE → Option UInt64
  | .ok () => Function.update s.tokens rawSocket (some token)
  | .error _ => s.tokens

def removedOnError (packets : List Packet) : Result ε CompletionStatus → List Packet
  | .ok _ => []
  | .error _ => packets.take 1

variable (port : CompletionPort) (v : View κ)

def Step (s : Traffic κ) : Event → Traffic κ → Prop
  | .addSocket token rawSocket, t =>
    ∃ r k', CompletionPort.addSocket sys create port s.kernel token rawSocket = (r, k') ∧
      t = { s with kernel := k', tokens := added s rawSocket token r }
  | .transfer d waiting this buf overlapped, t =>
    let c : IocpOverlapped.Call κ := ⟨this, s.kernel, buf, overlapped⟩
    let new := if Refused fs (submission fs d c) then 0 else started s.tokens this overlapped
    ∃ k', afterTransfer fs d waiting c = some k' ∧
      t = { s with kernel := k', submitted := new + s.submitted }
  | .post bytes token overlapped, t =>
    let status := CompletionStatus.create bytes token overlapped
    ∃ r k', port.post sys s.kernel status = (r, k') ∧
      t = { s with kernel := k', posted := s.posted ++ handed (fun _ => [status]) r }
  | .get timeout, t =>
    ∃ r k', port.get sys s.kernel timeout = (r, k') ∧
      t = { s with kernel := k'
                   received := s.received ++ handed (fun status => [status]) r
                   lost := s.lost ++ removedOnError (v.queue s.kernel) r }
  | .getMany list timeout, t =>
    ∃ r list' k', port.getMany sys s.kernel list timeout = some (r, list', k') ∧
      t = { s with kernel := k', received := s.received ++ handed id r }
  | .complete, t =>
    ∃ k', Stock.Completes (v.stock s.kernel) (v.stock k') ∧ v.keyOf k' = v.keyOf s.kernel ∧
      t = { s with kernel := k' }

structure Fresh (k : κ) : Prop where
  queue : v.queue k = []
  inFlight : (v.stock k).inFlight = 0
  keyOf : v.keyOf k = fun _ => none

def opened (k : κ) : Traffic κ := ⟨k, fun _ => none, [], 0, [], []⟩

/-- The accounts of a program. It knows the keys of its sockets, and only the packets of
failed operations are lost. -/
structure Booked (s : Traffic κ) (T : Transit Origin) : Prop where
  accepted : T.accepted = origins (s.posted.map CompletionStatus.message) + s.submitted
  inFlight : T.inFlight = (v.stock s.kernel).inFlight
  queued : T.queued = (v.stock s.kernel).queued
  delivered : T.delivered = origins (s.received.map CompletionStatus.message)
  dropped : T.dropped = origins (s.lost.map Packet.message)
  tokens : v.keyOf s.kernel = s.tokens
  failed : ∀ p ∈ s.lost, p.failed = true

variable {sys fs create port v}

theorem booked_opened {k : κ} (h : Fresh v k) : Booked v (opened k) Transit.empty where
  accepted := rfl
  inFlight := h.inFlight.symm
  queued := by
    have hqueue : (v.stock k).queue = [] := h.queue
    simp [opened, Stock.queued, hqueue, Transit.empty]
  delivered := rfl
  dropped := rfl
  tokens := h.keyOf
  failed := nofun

theorem overlappedHelper_stock (hd : DocumentedIo sys fs create port.rawHandle v) (d : Direction)
    (c : IocpOverlapped.Call κ) (waiting : BOOLEAN) :
    let k' := (helper fs d c waiting).2
    let new := if Refused fs (submission fs d c) then 0
      else started (v.keyOf c.kernel) c.this c.overlapped
    ReflTransGen Stock.Completes ((v.stock c.kernel).start new) (v.stock k') ∧
      v.keyOf k' = v.keyOf c.kernel := by
  obtain ⟨hstock, hkeys⟩ := hd.submit d c.kernel c.this c.buf.data
    (transferLength c.buf.sizeBytes) c.overlapped
  obtain ⟨hstock', hkeys'⟩ := hd.query (submission fs d c).state c.this c.overlapped 0
    waiting.toUInt32.toInt32
  by_cases hrefused : Refused fs (submission fs d c)
  · rw [(helper_eq fs d c waiting).trans (if_pos hrefused)]
    exact ⟨hstock, hkeys⟩
  · rw [(helper_eq fs d c waiting).trans (if_neg hrefused)]
    exact ⟨hstock.trans hstock', hkeys'.trans hkeys⟩

theorem afterTransfer_eq {d : Direction} {waiting : Bool} {c : IocpOverlapped.Call κ} {k' : κ}
    (h : afterTransfer fs d waiting c = some k') :
    k' = (helper fs d c (if waiting then TRUE else FALSE)).2 := by
  cases waiting with
  | false =>
    rw [← Option.some.inj h, poll_eq]
    rfl
  | true =>
    obtain ⟨r, hr, rfl⟩ := Option.map_eq_some_iff.mp h
    rw [wait_eq] at hr
    exact Handle.unwrapped_state hr

theorem addSocket_stock (hd : DocumentedIo sys fs create port.rawHandle v) {k k' : κ}
    {token : UInt64} {rawSocket : HANDLE} {r : Result ε Unit}
    (h : CompletionPort.addSocket sys create port k token rawSocket = (r, k')) :
    v.stock k' = v.stock k ∧ ∀ s : Traffic κ, v.keyOf k = s.tokens →
      v.keyOf k' = added s rawSocket token r := by
  obtain ⟨hstock, hkeys⟩ := hd.associate k rawSocket token
  rw [CompletionPort.addSocket, CompletionPort.add] at h
  by_cases hnull : (create k rawSocket port.rawHandle token 0).1 = nullptr
  · obtain ⟨rfl, rfl⟩ := Prod.mk.inj (h.symm.trans (if_pos hnull))
    rw [if_pos hnull] at hkeys
    exact ⟨hstock, fun s hs => hkeys.trans hs⟩
  · obtain ⟨rfl, rfl⟩ := Prod.mk.inj (h.symm.trans (if_neg hnull))
    rw [if_neg hnull] at hkeys
    refine ⟨hstock, fun s hs => ?_⟩
    rw [hkeys, hs]
    rfl

theorem post_inFlight (hd : DocumentedIo sys fs create port.rawHandle v) {k k' : κ}
    {status : CompletionStatus} {r : Result ε Unit} (h : port.post sys k status = (r, k')) :
    (v.stock k').inFlight = (v.stock k).inFlight ∧ v.keyOf k' = v.keyOf k := by
  rw [CompletionPort.post_state h]
  exact hd.post_keeps k _ _ _

theorem get_inFlight (hd : DocumentedIo sys fs create port.rawHandle v) {k k' : κ}
    {timeout : Option Int64} {r : Result ε CompletionStatus}
    (h : port.get sys k timeout = (r, k')) :
    (v.stock k').inFlight = (v.stock k).inFlight ∧ v.keyOf k' = v.keyOf k := by
  rw [CompletionPort.get_state h]
  exact hd.get_keeps k _ _ _ _

theorem getMany_inFlight (hd : DocumentedIo sys fs create port.rawHandle v) {k k' : κ}
    {list list' : List CompletionStatus} {timeout : Option Int64}
    {r : Result ε (List CompletionStatus)}
    (h : port.getMany sys k list timeout = some (r, list', k')) :
    (v.stock k').inFlight = (v.stock k).inFlight ∧ v.keyOf k' = v.keyOf k := by
  rw [CompletionPort.getMany_state h]
  exact hd.getEx_keeps k _ _ _ _ _

section Booking

variable {s t : Traffic κ} {T : Transit Origin}

theorem Booked.advance (h : Booked v s T) (new : Multiset Origin)
    (hstock : (v.stock t.kernel).queued + (v.stock t.kernel).inFlight =
      (v.stock s.kernel).queued + (new + (v.stock s.kernel).inFlight))
    (haccepted : origins (t.posted.map CompletionStatus.message) + t.submitted =
      new + (origins (s.posted.map CompletionStatus.message) + s.submitted))
    (hreceived : t.received = s.received) (hlost : t.lost = s.lost)
    (htokens : v.keyOf t.kernel = t.tokens) : ∃ T', Booked v t T' := by
  have hmoved : (v.stock t.kernel).queued + (v.stock t.kernel).inFlight =
      T.queued + (new + T.inFlight) := by
    rw [h.queued, h.inFlight]
    exact hstock
  refine ⟨T.advance new _ _ hmoved, ?_, rfl, rfl, ?_, ?_, htokens, ?_⟩
  · rw [haccepted, ← h.accepted]
    rfl
  · rw [hreceived]
    exact h.delivered
  · rw [hlost]
    exact h.dropped
  · rw [hlost]
    exact h.failed

theorem Booked.take (h : Booked v s T) (new : List CompletionStatus) (dropped : List Packet)
    (hqueue : (v.stock s.kernel).queued = origins (new.map CompletionStatus.message) +
      origins (dropped.map Packet.message) + (v.stock t.kernel).queued)
    (hkept : (v.stock t.kernel).inFlight = (v.stock s.kernel).inFlight ∧
      v.keyOf t.kernel = v.keyOf s.kernel)
    (hposted : t.posted = s.posted) (hsubmitted : t.submitted = s.submitted)
    (htokens : t.tokens = s.tokens) (hreceived : t.received = s.received ++ new)
    (hlost : t.lost = s.lost ++ dropped) (hfailed : ∀ p ∈ dropped, p.failed = true) :
    ∃ T', Booked v t T' := by
  refine ⟨T.take _ _ _ (h.queued.trans hqueue), ?_, ?_, rfl, ?_, ?_, ?_, ?_⟩
  · rw [hposted, hsubmitted]
    exact h.accepted
  · rw [hkept.1]
    exact h.inFlight
  · rw [hreceived, List.map_append, origins_append, ← h.delivered]
    rfl
  · rw [hlost, List.map_append, origins_append, ← h.dropped]
    rfl
  · rw [hkept.2, htokens]
    exact h.tokens
  · intro p hp
    rw [hlost, List.mem_append] at hp
    exact hp.elim (h.failed p) (hfailed p)

end Booking

theorem View.queued_eq {k : κ} {packets : List Packet} (h : v.queue k = packets) :
    (v.stock k).queued = origins (packets.map Packet.message) := by
  rw [← h]
  rfl

theorem booked_step (hd : DocumentedIo sys fs create port.rawHandle v) (s : Traffic κ)
    (e : Event) (t : Traffic κ) (h : ∃ T, Booked v s T)
    (hs : Step sys fs create port v s e t) : ∃ T, Booked v t T := by
  obtain ⟨T, h⟩ := h
  cases e with
  | addSocket token rawSocket =>
    obtain ⟨r, k', hcall, rfl⟩ := hs
    obtain ⟨hstock, htokens⟩ := addSocket_stock hd hcall
    refine h.advance 0 ?_ (zero_add _).symm rfl rfl (htokens s h.tokens)
    rw [zero_add]
    exact congrArg (fun stock : Stock => stock.queued + stock.inFlight) hstock
  | transfer d waiting this buf overlapped =>
    obtain ⟨k', hcall, rfl⟩ := hs
    obtain ⟨hstock, hkeys⟩ := overlappedHelper_stock hd d ⟨this, s.kernel, buf, overlapped⟩
      (if waiting then TRUE else FALSE)
    rw [← afterTransfer_eq hcall] at hstock hkeys
    rw [h.tokens] at hstock
    exact h.advance _ (Stock.total_of_reflTransGen hstock) (add_left_comm _ _ _) rfl rfl
      (hkeys.trans h.tokens)
  | post bytes token overlapped =>
    obtain ⟨r, k', hcall, rfl⟩ := hs
    obtain ⟨hflight, hkeys⟩ := post_inFlight hd hcall
    cases post_posted hd.packets hcall with
    | appended hqueue =>
      refine h.advance {originOf (CompletionStatus.create bytes token overlapped).message} ?_ ?_
        rfl rfl (hkeys.trans h.tokens)
      · rw [View.queued_eq hqueue, List.map_append, origins_append, hflight, add_assoc]
        rfl
      · rw [handed_ok, List.map_append, origins_append]
        exact (add_right_comm _ _ _).trans (add_comm _ _)
    | refused hqueue =>
      refine h.advance 0 ?_ ?_ rfl rfl (hkeys.trans h.tokens)
      · rw [View.queued_eq hqueue, hflight, zero_add]
        rfl
      · rw [zero_add, handed, List.append_nil]
  | get timeout =>
    obtain ⟨r, k', hcall, rfl⟩ := hs
    have hkept := get_inFlight hd hcall
    cases get_got hd.packets hcall with
    | empty hk hqueue =>
      refine h.take [] [] ?_ hkept rfl rfl rfl rfl ?_ nofun
      · rw [View.queued_eq hk, View.queued_eq hqueue]
        rfl
      · simp [removedOnError, hk]
    | @packet _ p rest status hk _ hmessage hqueue =>
      refine h.take [status] [] ?_ hkept rfl rfl rfl rfl rfl nofun
      rw [View.queued_eq hk, View.queued_eq hqueue, ← List.singleton_append, List.map_append,
        origins_append, List.map_singleton, List.map_singleton, hmessage, List.map_nil,
        origins_nil, add_zero]
    | @dropped _ p rest _ hk hfailed hqueue =>
      refine h.take [] [p] ?_ hkept rfl rfl rfl rfl ?_ ?_
      · rw [View.queued_eq hk, View.queued_eq hqueue, ← List.singleton_append, List.map_append,
          origins_append, List.map_nil, origins_nil, zero_add]
      · simp [removedOnError, hk]
      · intro q hq
        rw [List.mem_singleton.mp hq]
        exact hfailed
  | getMany list timeout =>
    obtain ⟨r, list', k', hcall, rfl⟩ := hs
    have hkept := getMany_inFlight hd hcall
    cases getMany_cases hd.packets list.2 hcall with
    | nothing _ hqueue =>
      refine h.take [] [] ?_ hkept rfl rfl rfl rfl (List.append_nil _).symm nofun
      rw [View.queued_eq hqueue, List.map_nil, List.map_nil, origins_nil, zero_add, zero_add]
      rfl
    | @some _ filled _ hfilled =>
      refine h.take filled [] ?_ hkept rfl rfl rfl rfl (List.append_nil _).symm nofun
      rw [View.queued_eq hfilled.remaining, hfilled.messages, List.map_nil, origins_nil, add_zero,
        ← origins_append, ← List.map_append, List.take_append_drop]
      rfl
  | complete =>
    obtain ⟨k', hcompletes, hkeys, rfl⟩ := hs
    refine h.advance 0 ?_ (zero_add _).symm rfl rfl (hkeys.trans h.tokens)
    rw [zero_add]
    exact hcompletes.total

def IsGet : Event → Prop
  | .get _ => True
  | _ => False

/-- What a program can rely on between its calls. -/
structure Conserved (v : View κ) (s : Traffic κ) : Prop where
  once : origins (s.received.map CompletionStatus.message) + origins (s.lost.map Packet.message) +
      ((v.stock s.kernel).queued + (v.stock s.kernel).inFlight) =
    origins (s.posted.map CompletionStatus.message) + s.submitted
  failed : ∀ p ∈ s.lost, p.failed = true
  tokens : v.keyOf s.kernel = s.tokens

theorem Booked.conserved {s : Traffic κ} {T : Transit Origin} (h : Booked v s T) :
    Conserved v s where
  once := by
    rw [← h.delivered, ← h.dropped, ← h.queued, ← h.inFlight, ← h.accepted]
    exact T.law
  failed := h.failed
  tokens := h.tokens

theorem Booked.at_rest {s : Traffic κ} {T : Transit Origin} (h : Booked v s T)
    (hqueue : v.queue s.kernel = []) (hflight : (v.stock s.kernel).inFlight = 0) :
    origins (s.received.map CompletionStatus.message) + origins (s.lost.map Packet.message) =
      origins (s.posted.map CompletionStatus.message) + s.submitted := by
  rw [← h.delivered, ← h.dropped, ← h.accepted]
  refine T.settled_of_idle ?_ (h.inFlight.trans hflight)
  rw [h.queued, View.queued_eq hqueue]
  rfl

theorem lost_step {s t : Traffic κ} {e : Event} (he : ¬IsGet e)
    (hs : Step sys fs create port v s e t) : t.lost = s.lost := by
  cases e with
  | get timeout => exact (he trivial).elim
  | addSocket token rawSocket =>
    obtain ⟨r, k', _, rfl⟩ := hs
    rfl
  | transfer d waiting this buf overlapped =>
    obtain ⟨k', _, rfl⟩ := hs
    rfl
  | post bytes token overlapped =>
    obtain ⟨r, k', _, rfl⟩ := hs
    rfl
  | getMany list timeout =>
    obtain ⟨r, list', k', _, rfl⟩ := hs
    rfl
  | complete =>
    obtain ⟨k', _, _, rfl⟩ := hs
    rfl

theorem lost_run {s t : Traffic κ} {es : List Event}
    (h : Execution (Step sys fs create port v) s es t) (hes : ∀ e ∈ es, ¬IsGet e) :
    t.lost = s.lost := by
  induction h with
  | refl => rfl
  | tail _ hv ih =>
    rw [lost_step (hes _ (by simp)) hv]
    exact ih fun e he => hes e (List.mem_append_left _ he)

/-- From a fresh port on, in every interleaving with the system: each operation that a
transfer started or `post` queued is in flight, queued, received, or lost, once, and only
failed operations are lost. At rest all have been received or lost, and without the single
dequeue none is ever lost. -/
theorem completions_conserved (hd : DocumentedIo sys fs create port.rawHandle v) {k : κ}
    (hk : Fresh v k) {s : Traffic κ} {es : List Event}
    (h : Execution (Step sys fs create port v) (opened k) es s) :
    Conserved v s ∧
    (v.queue s.kernel = [] → (v.stock s.kernel).inFlight = 0 →
      origins (s.received.map CompletionStatus.message) + origins (s.lost.map Packet.message) =
        origins (s.posted.map CompletionStatus.message) + s.submitted) ∧
    ((∀ e ∈ es, ¬IsGet e) → s.lost = []) := by
  obtain ⟨T, hT⟩ := h.invariant (booked_step hd) ⟨_, booked_opened hk⟩
  exact ⟨hT.conserved, hT.at_rest, lost_run h⟩

namespace Simulated

structure Kernel where
  queue : List Packet
  keys : HANDLE → Option ULONG_PTR
  inFlight : Multiset Origin
  lastError : DWORD

def fresh : Kernel := ⟨[], fun _ => none, 0, 0⟩

def view : View Kernel := ⟨fun k => ⟨k.queue, k.inFlight⟩, Kernel.keys⟩

def ports (port : HANDLE) : System Kernel Unit where
  postQueuedCompletionStatus k h bytes key overlapped :=
    let r := (fifo port).postQueuedCompletionStatus k.queue h bytes key overlapped
    (r.1, { k with queue := r.2 })
  getQueuedCompletionStatus k h bytes key overlapped ms :=
    let r := (fifo port).getQueuedCompletionStatus k.queue h bytes key overlapped ms
    ⟨r.ret, r.bytes, r.token, r.overlapped, { k with queue := r.state }⟩
  getQueuedCompletionStatusEx k h entries len removed ms alertable :=
    let r := (fifo port).getQueuedCompletionStatusEx k.queue h entries len removed ms alertable
    ⟨r.ret, r.entries, r.removed, { k with queue := r.state }⟩
  winError _ := ()

def associate (port : HANDLE) : Create Kernel :=
  fun k handle existing key _ =>
    if existing = port ∧ port ≠ nullptr then
      (port, { k with keys := Function.update k.keys handle (some key) })
    else
      (nullptr, k)

def errorIoIncomplete : DWORD := 996
def errorIoPending : DWORD := 997

def pend : Submit Kernel :=
  fun k this _ _ _ overlapped =>
    ⟨0, 0, { k with inFlight := started k.keys this (overlapped.getD 0) + k.inFlight
                    lastError := errorIoPending }⟩

def files : FileSystem Kernel Unit where
  readFile := pend
  writeFile := pend
  getOverlappedResult k _ _ bytes _ := ⟨0, bytes, { k with lastError := errorIoIncomplete }⟩
  getLastError := Kernel.lastError
  winError _ := ()
  winErrorOf _ := ()
  ioPending := errorIoPending
  ioIncomplete := errorIoIncomplete

theorem submitOf_files (d : Direction) : submitOf files d = pend := by
  cases d <;> rfl

theorem packets_documented (port : HANDLE) : Documented (ports port) port view.queue where
  post k bytes key overlapped := (fifo_documented port).post k.queue bytes key overlapped
  get_empty k bytes key overlapped ms hk :=
    (fifo_documented port).get_empty k.queue bytes key overlapped ms hk
  get_packet k bytes key overlapped ms p rest hk :=
    (fifo_documented port).get_packet k.queue bytes key overlapped ms p rest hk
  getEx_empty k entries len removed ms alertable hk :=
    (fifo_documented port).getEx_empty k.queue entries len removed ms alertable hk
  getEx_none k entries removed ms alertable :=
    (fifo_documented port).getEx_none k.queue entries removed ms alertable
  getEx_packets k entries len removed ms alertable hk hlen hfit :=
    (fifo_documented port).getEx_packets k.queue entries len removed ms alertable hk hlen hfit

theorem documented (port : HANDLE) :
    DocumentedIo (ports port) files (associate port) port view where
  packets := packets_documented port
  post_keeps _ _ _ _ := ⟨rfl, rfl⟩
  get_keeps _ _ _ _ _ := ⟨rfl, rfl⟩
  getEx_keeps _ _ _ _ _ _ := ⟨rfl, rfl⟩
  associate k handle key := by
    by_cases hport : port = nullptr <;> simp [associate, view, hport]
  submit d k this data len overlapped := by
    rw [submitOf_files]
    have haccepted : ¬Refused files (pend k this data len none (some overlapped)) :=
      fun h => h.2 rfl
    simp only [if_neg haccepted]
    exact ⟨.refl, rfl⟩
  query _ _ _ _ _ := ⟨.refl, rfl⟩

end Simulated

/-- A read through a socket fails, and the single dequeue loses it. -/
theorem completions_conserved_simulated : ∃ s,
    Execution (Step (Simulated.ports 1) Simulated.files (Simulated.associate 1) ⟨1⟩
        Simulated.view) (opened Simulated.fresh)
      [.addSocket 7 5, .transfer .read false 5 ⟨4096, 16, by decide⟩ 8192, .complete, .get none]
      s ∧
    Conserved Simulated.view s ∧ s.lost ≠ [] := by
  have hd : DocumentedIo (Simulated.ports 1) Simulated.files (Simulated.associate 1)
      (⟨1⟩ : CompletionPort).rawHandle Simulated.view := Simulated.documented 1
  have hfresh : Fresh Simulated.view Simulated.fresh := ⟨rfl, rfl, rfl⟩
  let keys : HANDLE → Option ULONG_PTR := Function.update (fun _ => none) 5 (some 7)
  let p : Packet := ⟨0, 7, 8192, true, by decide⟩
  have hcompletes : Stock.Completes ⟨[], {⟨7, 8192⟩} + 0⟩ ⟨[p], 0⟩ := .packet p
  refine ⟨⟨⟨[], keys, 0, 996⟩, keys, [], {⟨7, 8192⟩} + 0, [], [p]⟩, ?h, ?_, by simp⟩
  · exact .tail (.tail (.tail (.tail (.refl _) ⟨.ok (), _, rfl, rfl⟩) ⟨_, rfl, rfl⟩)
      ⟨⟨[p], keys, 0, 996⟩, hcompletes, rfl, rfl⟩) ⟨.error (), _, rfl, rfl⟩
  · exact (completions_conserved hd hfresh ?h).1

end IocpTraffic
