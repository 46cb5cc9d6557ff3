import Laio.IocpDelivery
import Mathlib.Algebra.BigOperators.Group.List.Basic
import Mathlib.Algebra.GroupWithZero.Nat

/-! # Batches of dequeues

A queue is drained by single and by batch dequeues of any sizes. What is left depends only on
how many packets were asked for, and so does what is handed out, up to failed operations. -/
namespace IocpBatching

open IocpCompletion IocpDelivery LibExecutions IocpHandle

def demand : Call → ℕ
  | .post .. => 0
  | .get _ => 1
  | .getMany list _ => list.val.length

def total (es : List Call) : ℕ := (es.map demand).sum

def IsDequeue : Call → Prop
  | .post .. => False
  | _ => True

def IsBatch : Call → Prop
  | .getMany .. => True
  | _ => False

def succeeded (p : Packet) : Bool := !p.failed

/-- Which of the packets that it removes a call hands to the caller. -/
def visible : Call → List Packet → List Packet
  | .get _, packets => packets.filter succeeded
  | _, packets => packets

structure Drain where
  left : List Packet
  out : List Packet

def Drain.step (d : Drain) (e : Call) : Drain :=
  ⟨d.left.drop (demand e), d.out ++ visible e (d.left.take (demand e))⟩

def drain (queue : List Packet) (es : List Call) : Drain := es.foldl Drain.step ⟨queue, []⟩

theorem drain_concat (queue : List Packet) (es : List Call) (e : Call) :
    drain queue (es ++ [e]) = (drain queue es).step e := by
  simp [drain]

theorem total_concat (es : List Call) (e : Call) : total (es ++ [e]) = total es + demand e := by
  simp [total]

theorem visible_sublist (e : Call) (packets : List Packet) :
    (visible e packets).Sublist packets := by
  cases e with
  | get timeout => exact List.filter_sublist
  | _ => exact List.Sublist.refl packets

theorem succeeded_sublist_visible (e : Call) (packets : List Packet) :
    (packets.filter succeeded).Sublist (visible e packets) := by
  cases e with
  | get timeout => exact List.Sublist.refl _
  | _ => exact List.filter_sublist

theorem drain_left (queue : List Packet) (es : List Call) :
    (drain queue es).left = queue.drop (total es) := by
  induction es using List.reverseRecOn with
  | nil => rfl
  | append_singleton es e ih =>
    rw [drain_concat, Drain.step, ih, List.drop_drop, total_concat]

theorem drain_out_concat (queue : List Packet) (es : List Call) (e : Call) :
    (drain queue (es ++ [e])).out =
      (drain queue es).out ++ visible e ((queue.drop (total es)).take (demand e)) := by
  rw [drain_concat, Drain.step, drain_left]

theorem take_total_concat (queue : List Packet) (es : List Call) (e : Call) :
    queue.take (total (es ++ [e])) =
      queue.take (total es) ++ (queue.drop (total es)).take (demand e) := by
  rw [total_concat, List.take_add]

theorem drain_out_sublist (queue : List Packet) (es : List Call) :
    (drain queue es).out.Sublist (queue.take (total es)) := by
  induction es using List.reverseRecOn with
  | nil => exact List.Sublist.refl _
  | append_singleton es e ih =>
    rw [drain_out_concat, take_total_concat]
    exact ih.append (visible_sublist _ _)

theorem succeeded_sublist_drain_out (queue : List Packet) (es : List Call) :
    ((queue.take (total es)).filter succeeded).Sublist (drain queue es).out := by
  induction es using List.reverseRecOn with
  | nil => exact List.Sublist.refl _
  | append_singleton es e ih =>
    rw [drain_out_concat, take_total_concat, List.filter_append]
    exact ih.append (succeeded_sublist_visible _ _)

theorem drain_out_of_succeeded {queue : List Packet} {es : List Call}
    (h : ∀ p ∈ queue.take (total es), p.failed = false) :
    (drain queue es).out = queue.take (total es) := by
  have hall : (queue.take (total es)).filter succeeded = queue.take (total es) := by
    rw [List.filter_eq_self]
    intro p hp
    rw [succeeded, h p hp]
    rfl
  have hok := succeeded_sublist_drain_out queue es
  rw [hall] at hok
  exact (drain_out_sublist queue es).antisymm hok

theorem drain_out_of_batches {queue : List Packet} {es : List Call} (h : ∀ e ∈ es, IsBatch e) :
    (drain queue es).out = queue.take (total es) := by
  induction es using List.reverseRecOn with
  | nil => rfl
  | append_singleton es e ih =>
    have he := h e (by simp)
    rw [drain_out_concat, take_total_concat, ih fun e he => h e (List.mem_append_left _ he)]
    cases e with
    | getMany list timeout => rfl
    | _ => exact he.elim

variable {κ ε : Type*} {sys : System κ ε} {port : CompletionPort} {queue : κ → List Packet}

structure Drained (queue : κ → List Packet) (s : Session κ) (es : List Call) (t : Session κ) :
    Prop where
  posted : t.posted = s.posted
  left : queue t.kernel = (drain (queue s.kernel) es).left
  received : t.received.map CompletionStatus.message =
    s.received.map CompletionStatus.message ++
      (drain (queue s.kernel) es).out.map Packet.message

theorem drained_step (hd : Documented sys port.rawHandle queue) {s t u : Session κ}
    {es : List Call} {e : Call} (h : Drained queue s es t) (hs : Step sys port t e u)
    (he : IsDequeue e) : Drained queue s (es ++ [e]) u := by
  -- what the call removed, and what of it the caller sees
  have hcall : ∀ new : List CompletionStatus, u.posted = t.posted →
      queue u.kernel = (queue t.kernel).drop (demand e) → u.received = t.received ++ new →
      new.map CompletionStatus.message =
        (visible e ((queue t.kernel).take (demand e))).map Packet.message →
      Drained queue s (es ++ [e]) u := by
    intro new hposted hqueue hreceived hnew
    refine ⟨hposted.trans h.posted, ?_, ?_⟩
    · rw [drain_concat, hqueue, h.left]
      rfl
    · rw [drain_concat, hreceived, List.map_append, h.received, hnew, h.left, List.append_assoc]
      exact congrArg _ List.map_append.symm
  cases e with
  | post bytes token overlapped => exact he.elim
  | get timeout =>
    obtain ⟨r, k', hget, rfl⟩ := hs
    cases get_got hd hget with
    | empty hk hqueue =>
      exact hcall [] rfl (by simp [hk, hqueue]) rfl (by simp [hk, visible])
    | packet hk hok hmessage hqueue =>
      refine hcall _ rfl (by simp [hk, hqueue, demand]) rfl ?_
      simp [hk, visible, demand, succeeded, hok, hmessage]
    | dropped hk hfailed hqueue =>
      refine hcall [] rfl (by simp [hk, hqueue, demand]) rfl ?_
      simp [hk, visible, demand, succeeded, hfailed]
  | getMany list timeout =>
    obtain ⟨r, list', k', hmany, rfl⟩ := hs
    have hmin : ∀ ps : List Packet, ps.take (min list.val.length ps.length) =
        ps.take list.val.length ∧
        ps.drop (min list.val.length ps.length) = ps.drop list.val.length := by
      intro ps
      rcases Nat.le_total list.val.length ps.length with hle | hle
      · rw [Nat.min_eq_left hle]
        exact ⟨rfl, rfl⟩
      · rw [Nat.min_eq_right hle, List.take_length, List.drop_length, List.take_of_length_le hle,
          List.drop_of_length_le hle]
        exact ⟨rfl, rfl⟩
    cases getMany_cases hd list.2 hmany with
    | nothing hnone hqueue =>
      rcases hnone with hk | hlist
      · exact hcall [] rfl (by simp [hk, hqueue]) rfl (by simp [hk, visible])
      · exact hcall [] rfl (by simp [hlist, hqueue, demand]) rfl
          (by simp [hlist, visible, demand])
    | some hfilled =>
      refine hcall _ rfl ?_ rfl ?_
      · rw [hfilled.remaining, (hmin _).2]
        rfl
      · rw [handed_ok, id, hfilled.messages, (hmin _).1]
        rfl

theorem drained_run (hd : Documented sys port.rawHandle queue) {s t : Session κ} {es : List Call}
    (h : Execution (Step sys port) s es t) (hes : ∀ e ∈ es, IsDequeue e) :
    Drained queue s es t := by
  induction h with
  | refl => exact ⟨rfl, rfl, (List.append_nil _).symm⟩
  | @tail es u e v _ hv ih =>
    have hu := ih fun e he => hes e (List.mem_append_left _ he)
    exact drained_step hd hu hv (hes e (by simp))

/-- What a schedule of dequeues does, whatever its batches are. -/
structure Served (queue : κ → List Packet) (s : Session κ) (n : ℕ) (t : Session κ) : Prop where
  left : queue t.kernel = (queue s.kernel).drop n
  handed : ∃ out, t.received.map CompletionStatus.message =
      s.received.map CompletionStatus.message ++ out.map Packet.message ∧
    out.Sublist ((queue s.kernel).take n) ∧
    (((queue s.kernel).take n).filter succeeded).Sublist out

theorem Drained.served {s t : Session κ} {es : List Call} (h : Drained queue s es t) :
    Served queue s (total es) t :=
  ⟨h.left.trans (drain_left _ _),
    _, h.received, drain_out_sublist _ _, succeeded_sublist_drain_out _ _⟩

/-- Dequeues take the oldest packets in order and withhold at most those of failed operations.
Two schedules that ask for equally many leave the same queue, and hand out the same messages
if no operation failed or all their calls are batches. -/
theorem batching_irrelevant (hd : Documented sys port.rawHandle queue) {s t t' : Session κ}
    {es es' : List Call} (h : Execution (Step sys port) s es t)
    (h' : Execution (Step sys port) s es' t') (hes : ∀ e ∈ es, IsDequeue e)
    (hes' : ∀ e ∈ es', IsDequeue e) (htotal : total es = total es') :
    Served queue s (total es) t ∧ queue t.kernel = queue t'.kernel ∧
    ((∀ p ∈ (queue s.kernel).take (total es), p.failed = false) ∨ (∀ e ∈ es ++ es', IsBatch e) →
      t.received.map CompletionStatus.message = t'.received.map CompletionStatus.message) := by
  have hrun := drained_run hd h hes
  have hrun' := drained_run hd h' hes'
  refine ⟨hrun.served, ?_, ?_⟩
  · rw [hrun.left, hrun'.left, drain_left, drain_left, htotal]
  · rintro (hok | hbatch)
    · have hok' := hok
      rw [htotal] at hok'
      rw [hrun.received, hrun'.received, drain_out_of_succeeded hok,
        drain_out_of_succeeded hok', htotal]
    · rw [hrun.received, hrun'.received,
        drain_out_of_batches fun e he => hbatch e (List.mem_append_left _ he),
        drain_out_of_batches fun e he => hbatch e (List.mem_append_right _ he), htotal]

theorem batching_irrelevant_fifo :
    let s : Session (List Packet) :=
      ⟨[.posted 1 2 4096, .posted 4 5 8192, .posted 7 8 0], [], []⟩
    ∃ t t',
      Execution (Step (fifo 1) ⟨1⟩) s
        [.getMany ⟨[.zeroed, .zeroed], by decide⟩ none, .get none] t ∧
      Execution (Step (fifo 1) ⟨1⟩) s [.get none, .get none, .get none] t' ∧
      t.kernel = t'.kernel ∧
      t.received.map CompletionStatus.message = t'.received.map CompletionStatus.message := by
  intro s
  have hd : Documented (fifo 1) (⟨1⟩ : CompletionPort).rawHandle id := fifo_documented 1
  obtain ⟨t, ht⟩ := execution_exists (step_exists hd) s
    [.getMany ⟨[.zeroed, .zeroed], by decide⟩ none, .get none]
  obtain ⟨t', ht'⟩ := execution_exists (step_exists hd) s [.get none, .get none, .get none]
  obtain ⟨_, hleft, hsame⟩ := batching_irrelevant hd ht ht' (by simp [IsDequeue])
    (by simp [IsDequeue]) rfl
  refine ⟨t, t', ht, ht', hleft, hsame (Or.inl ?_)⟩
  simp [s, total, demand, Packet.posted]

end IocpBatching
