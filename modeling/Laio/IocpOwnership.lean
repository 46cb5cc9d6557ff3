import Laio.IocpHandle
import Laio.LibExecutions
import Laio.LibLedger

/-! # Ownership of raw handles

Every operation on the wrappers is a booking in the ledger of raw handles. Uniqueness and
single closing are the ledger's own laws; what an assignment overwrites is booked as lost. -/
namespace IocpOwnership

open LibExecutions LibLedger IocpHandle

def heldAt (live : Finset Addr) (rawHandle : Addr → HANDLE) : Multiset HANDLE :=
  ∑ a ∈ live, owned (rawHandle a)

def held (w : World) : Multiset HANDLE := heldAt w.live w.rawHandle

/-- How far the accounts of two worlds differ: raw handles acquired, closed, extracted and
lost on the way from one to the other. -/
structure Booking (w w' : World) (g c e l : Multiset HANDLE) : Prop where
  given : w'.given = g + w.given
  held : g + held w = c + e + l + held w'
  closed : w'.closed = c + w.closed
  extracted : w'.extracted = e + w.extracted
  delivered : w'.delivered = w.delivered

structure Books (w : World) (L : Ledger HANDLE) : Prop where
  given : L.given = w.given
  held : L.held = held w
  closed : L.closed = w.closed
  extracted : L.extracted = w.extracted

theorem Booking.trans {w w' w'' : World} {g c e l g' c' e' l' : Multiset HANDLE}
    (h : Booking w w' g c e l) (h' : Booking w' w'' g' c' e' l') :
    Booking w w'' (g' + g) (c' + c) (e' + e) (l' + l) where
  given := by rw [h'.given, h.given, add_assoc]
  held := by
    have := h'.held
    calc
      g' + g + IocpOwnership.held w = g' + (c + e + l + IocpOwnership.held w') := by
        rw [add_assoc, h.held]
      _ = c + e + l + (g' + IocpOwnership.held w') := by abel
      _ = _ := by rw [h'.held]; abel
  closed := by rw [h'.closed, h.closed, add_assoc]
  extracted := by rw [h'.extracted, h.extracted, add_assoc]
  delivered := h'.delivered.trans h.delivered

theorem books_initial : Books initial Ledger.empty := ⟨rfl, rfl, rfl, rfl⟩

theorem Books.book {w w' : World} {L : Ledger HANDLE} {g c e l : Multiset HANDLE}
    (h : Books w L) (hb : Booking w w' g c e l) (hfresh : (g + L.given).Nodup) :
    ∃ L', Books w' L' ∧ L'.lost = l + L.lost := by
  have hheld : (L.acquire g hfresh).held = c + e + l + IocpOwnership.held w' := by
    rw [← hb.held, ← h.held]
    rfl
  refine ⟨(L.acquire g hfresh).settle c e l (IocpOwnership.held w') hheld, ⟨?_, rfl, ?_, ?_⟩, rfl⟩
  · rw [hb.given, ← h.given]
    rfl
  · rw [hb.closed, ← h.closed]
    rfl
  · rw [hb.extracted, ← h.extracted]
    rfl

theorem heldAt_erase {live : Finset Addr} {rawHandle : Addr → HANDLE} {a : Addr} (ha : a ∈ live) :
    heldAt live rawHandle = owned (rawHandle a) + heldAt (live.erase a) rawHandle :=
  (Finset.add_sum_erase live (fun b => owned (rawHandle b)) ha).symm

theorem heldAt_update_of_notMem {live : Finset Addr} {rawHandle : Addr → HANDLE} {a : Addr}
    (ha : a ∉ live) (h : HANDLE) :
    heldAt live (Function.update rawHandle a h) = heldAt live rawHandle := by
  apply Finset.sum_congr rfl
  intro b hb
  have hne : b ≠ a := by
    rintro rfl
    exact ha hb
  rw [Function.update_of_ne hne]

theorem held_leave {w : World} {a : Addr} (ha : a ∈ w.live) :
    held w = owned (w.rawHandle a) + held (w.leave a) := heldAt_erase ha

theorem held_write {w : World} {a : Addr} (ha : a ∈ w.live) (h : HANDLE) :
    owned (w.rawHandle a) + held (w.write a h) = owned h + held w := by
  change owned (w.rawHandle a) + heldAt w.live (Function.update w.rawHandle a h) = _
  rw [heldAt_erase ha, Function.update_self, heldAt_update_of_notMem (Finset.notMem_erase a _),
    held, heldAt_erase ha]
  abel

theorem held_enter {w : World} {a : Addr} (ha : a ∉ w.live) (h : HANDLE) :
    held (w.enter a h) = owned h + held w := by
  change heldAt (insert a w.live) (Function.update w.rawHandle a h) = _
  rw [heldAt_erase (Finset.mem_insert_self a _), Function.update_self, Finset.erase_insert ha,
    heldAt_update_of_notMem ha]
  rfl

theorem construct_books {w : World} {this : Addr} (hthis : this ∉ w.live) (handle : HANDLE) :
    Booking w (Handle.construct w this handle) (owned handle) 0 0 0 where
  given := rfl
  held := by
    rw [zero_add, zero_add, zero_add]
    exact (held_enter hthis handle).symm
  closed := by rw [zero_add]; rfl
  extracted := by rw [zero_add]; rfl
  delivered := rfl

theorem moveConstruct_books {w : World} {this other : Addr} (hthis : this ∉ w.live)
    (hother : other ∈ w.live) : Booking w (Handle.moveConstruct w this other) 0 0 0 0 where
  given := by rw [zero_add]; rfl
  held := by
    have hne : other ≠ this := by
      rintro rfl
      exact hthis hother
    have hwrite := held_write (w := w.enter this (w.rawHandle other)) (a := other)
      (Finset.mem_insert_of_mem hother) nullptr
    rw [held_enter hthis, owned_nullptr] at hwrite
    change owned (Function.update w.rawHandle this (w.rawHandle other) other) + _ = _ at hwrite
    rw [Function.update_of_ne hne, zero_add] at hwrite
    rw [zero_add, zero_add, zero_add, zero_add]
    exact (add_left_cancel hwrite).symm
  closed := by rw [zero_add]; rfl
  extracted := by rw [zero_add]; rfl
  delivered := rfl

theorem destruct_books {w : World} {this : Addr} (hthis : this ∈ w.live) :
    Booking w (Handle.destruct w this) 0 (owned (w.rawHandle this)) 0 0 := by
  rw [Handle.destruct_eq]
  refine ⟨(zero_add _).symm, ?_, rfl, (zero_add _).symm, rfl⟩
  rw [zero_add, add_zero, add_zero]
  exact held_leave hthis

/-- What the target of an assignment held is gone, also if it is its own source. -/
theorem moveAssign_books {w : World} {this rhs : Addr} (hthis : this ∈ w.live)
    (hrhs : rhs ∈ w.live) :
    Booking w (Handle.moveAssign w this rhs) 0 0 0 (owned (w.rawHandle this)) where
  given := (zero_add _).symm
  held := by
    have h₁ := held_write hthis (w.rawHandle rhs)
    have h₂ := held_write (w := w.write this (w.rawHandle rhs)) hrhs nullptr
    -- the first write leaves the source as it was, also if both are one object
    have hraw : (w.write this (w.rawHandle rhs)).rawHandle rhs = w.rawHandle rhs := by
      by_cases heq : rhs = this
      · rw [heq]
        exact Function.update_self _ _ _
      · exact Function.update_of_ne heq _ _
    rw [hraw, owned_nullptr, zero_add] at h₂
    rw [zero_add, zero_add, zero_add]
    apply add_left_cancel (a := owned (w.rawHandle rhs))
    rw [← h₁, ← h₂]
    exact add_left_comm _ _ _
  closed := (zero_add _).symm
  extracted := (zero_add _).symm
  delivered := rfl

theorem intoRaw_books {w : World} {this : Addr} (hthis : this ∈ w.live) :
    Booking w (handOut (Handle.intoRaw w this)) 0 0 (owned (w.rawHandle this)) 0 where
  given := (zero_add _).symm
  held := by
    have hwrite := held_write hthis nullptr
    rw [owned_nullptr, zero_add] at hwrite
    rw [zero_add, zero_add, add_zero]
    exact hwrite.symm
  closed := (zero_add _).symm
  extracted := rfl
  delivered := zero_add _

theorem Booking.ports {w w' : World} {g c e l : Multiset HANDLE} (h : Booking w w' g c e l)
    (ports : Finset Addr) : Booking w { w' with ports := ports } g c e l :=
  ⟨h.given, h.held, h.closed, h.extracted, h.delivered⟩

theorem portMoveConstruct_books {w : World} {this other : Addr} (hthis : this ∉ w.live)
    (hother : other ∈ w.live) : Booking w (CompletionPort.moveConstruct w this other) 0 0 0 0 :=
  (moveConstruct_books hthis hother).ports _

theorem portDestruct_books {w : World} {this : Addr} (hthis : this ∈ w.live) :
    Booking w (CompletionPort.destruct w this) 0 (owned (w.rawHandle this)) 0 0 :=
  (destruct_books hthis).ports _

theorem portConstruct_books {w : World} {this param : Addr} (hthis : this ∉ w.live)
    (hparam : param ∈ w.live) : Booking w (CompletionPort.construct w this param) 0 0 0 0 := by
  have hmove := moveConstruct_books hthis hparam
  have hlive : param ∈ (Handle.moveConstruct w this param).live := by simp [hparam]
  have hdrop := destruct_books hlive
  rw [Handle.rawHandle_moveConstruct, owned_nullptr] at hdrop
  exact (hmove.trans hdrop).ports _

theorem portFromRawHandle_books {w : World} {this param : Addr} (hthis : this ∉ w.live)
    (hparam : param ∉ w.live) (hne : this ≠ param) (handle : HANDLE) :
    Booking w (CompletionPort.fromRawHandle w this param handle) (owned handle) 0 0 0 := by
  have hfree : this ∉ (Handle.construct w param handle).live := by simp [hthis, hne]
  have h := (construct_books hparam handle).trans
    (portConstruct_books hfree (Finset.mem_insert_self _ _))
  simpa only [zero_add, CompletionPort.fromRawHandle] using h

theorem portCreate_books {w : World} {this temp param : Addr} (hthis : this ∉ w.live)
    (htemp : temp ∉ w.live) (hparam : param ∉ w.live) (hne : this ≠ temp)
    (hne' : temp ≠ param) (ret : HANDLE) :
    Booking w (CompletionPort.create w this temp param ret) (owned ret) 0 0 0 := by
  unfold CompletionPort.create
  split
  · next hnull =>
    rw [hnull, owned_nullptr]
    exact ⟨(zero_add _).symm, by simp, (zero_add _).symm, (zero_add _).symm, rfl⟩
  · obtain ⟨port, hlive, hport⟩ : ∃ port,
        port.live = (insert temp (insert param w.live)).erase param ∧
        port = CompletionPort.construct (Handle.construct w param ret) temp param :=
      ⟨_, CompletionPort.live_construct _ _ _, rfl⟩
    have hbooks := portFromRawHandle_books htemp hparam hne' ret
    rw [CompletionPort.fromRawHandle, ← hport] at hbooks
    have hfree : this ∉ port.live := by
      rw [hlive]
      simp [hthis, hne]
    have htemp' : temp ∈ port.live := by
      rw [hlive]
      simp [hne']
    have hmove := portMoveConstruct_books hfree htemp'
    have hmoved : temp ∈ (CompletionPort.moveConstruct port this temp).live :=
      Finset.mem_insert_of_mem htemp'
    have hdrop := portDestruct_books hmoved
    rw [CompletionPort.rawHandle_moveConstruct, owned_nullptr] at hdrop
    have h := (hbooks.trans hmove).trans hdrop
    simp only [zero_add] at h
    rw [← hport]
    exact h

def acquired : Event → Multiset HANDLE
  | .construct _ handle => owned handle
  | .fromRawHandle _ _ handle => owned handle
  | .create _ _ _ ret => owned ret
  | _ => 0

def extraction (w : World) : Event → Multiset HANDLE
  | .intoRaw _ this => owned (w.rawHandle this)
  | _ => 0

def overwritten (w : World) : Event → Multiset HANDLE
  | .moveAssign _ this _ => owned (w.rawHandle this)
  | _ => 0

theorem step_books {w w' : World} {e : Event} (h : Step w e w') :
    ∃ c, Booking w w' (acquired e) c (extraction w e) (overwritten w e) := by
  obtain ⟨he, rfl⟩ := h
  cases e with
  | construct this handle => exact ⟨0, construct_books he.1 handle⟩
  | moveConstruct k this other =>
    cases k with
    | handle => exact ⟨0, moveConstruct_books he.1 he.2.1⟩
    | completionPort => exact ⟨0, portMoveConstruct_books he.1 he.2.1⟩
  | moveAssign k this rhs =>
    have hassign := moveAssign_books he.1.1 he.2.1
    cases k with
    | handle => exact ⟨0, hassign⟩
    | completionPort => exact ⟨0, hassign⟩
  | intoRaw k this =>
    have hout := intoRaw_books he.1
    cases k with
    | handle => exact ⟨0, hout⟩
    | completionPort => exact ⟨0, hout⟩
  | destruct k this =>
    cases k with
    | handle => exact ⟨_, destruct_books he.1⟩
    | completionPort => exact ⟨_, portDestruct_books he.1⟩
  | wrap this param source =>
    obtain ⟨hthis, hparam, hne, hsource, _⟩ := he
    have hfree : this ∉ (Handle.moveConstruct w param source).live := by simp [hthis, hne]
    have hwrap := (moveConstruct_books hparam hsource).trans
      (portConstruct_books hfree (Finset.mem_insert_self _ _))
    simp only [zero_add] at hwrap
    exact ⟨0, hwrap⟩
  | fromRawHandle this param handle =>
    obtain ⟨hthis, hparam, hne, _⟩ := he
    exact ⟨0, portFromRawHandle_books hthis hparam hne handle⟩
  | create this temp param ret =>
    obtain ⟨hthis, htemp, hparam, hne, hne', _⟩ := he
    exact ⟨0, portCreate_books hthis htemp hparam hne hne' ret⟩

theorem nodup_owned_add {h : HANDLE} {s : Multiset HANDLE} (hfresh : h ∉ s) (hs : s.Nodup) :
    (owned h + s).Nodup := by
  unfold owned
  split
  · rwa [zero_add]
  · rw [Multiset.singleton_add]
    exact Multiset.nodup_cons.mpr ⟨hfresh, hs⟩

theorem nodup_acquired {w : World} {e : Event} (he : Enabled w e) (hw : w.given.Nodup) :
    (acquired e + w.given).Nodup := by
  cases e with
  | construct this handle => exact nodup_owned_add he.2 hw
  | fromRawHandle this param handle => exact nodup_owned_add he.2.2.2 hw
  | create this temp param ret => exact nodup_owned_add he.2.2.2.2.2 hw
  | _ => simpa [acquired] using hw

theorem Books.step {w w' : World} {e : Event} {L : Ledger HANDLE} (h : Books w L)
    (hs : Step w e w') : ∃ L', Books w' L' ∧ L'.lost = overwritten w e + L.lost := by
  obtain ⟨c, hb⟩ := step_books hs
  refine h.book hb ?_
  rw [h.given]
  exact nodup_acquired hs.1 (by rw [← h.given]; exact L.distinct)

structure Accounted (w : World) : Prop where
  ledger : ∃ L, Books w L
  given_nonnull : nullptr ∉ w.given
  delivered : w.delivered = 0

theorem accounted_initial : Accounted initial :=
  ⟨⟨_, books_initial⟩, Multiset.notMem_zero _, rfl⟩

theorem nullptr_notMem_acquired (e : Event) : nullptr ∉ acquired e := by
  cases e <;> simp [acquired, mem_owned]
  all_goals tauto

theorem accounted_step (w : World) (e : Event) (w' : World) (h : Accounted w) (hs : Step w e w') :
    Accounted w' := by
  obtain ⟨L, hL⟩ := h.ledger
  obtain ⟨L', hL', _⟩ := hL.step hs
  obtain ⟨c, hb⟩ := step_books hs
  refine ⟨⟨L', hL'⟩, ?_, hb.delivered.trans h.delivered⟩
  rw [hb.given, Multiset.mem_add, not_or]
  exact ⟨nullptr_notMem_acquired e, h.given_nonnull⟩

theorem mem_held {w : World} {h : HANDLE} :
    h ∈ held w ↔ h ≠ nullptr ∧ ∃ a ∈ w.live, w.rawHandle a = h := by
  rw [held, heldAt, Multiset.mem_sum]
  simp only [mem_owned]
  constructor
  · rintro ⟨a, ha, rfl, hne⟩
    exact ⟨hne, a, ha, rfl⟩
  · rintro ⟨hne, a, ha, rfl⟩
    exact ⟨a, ha, rfl, hne⟩

structure UniqueOwnership (w : World) : Prop where
  unique : ∀ a ∈ w.live, ∀ b ∈ w.live,
    w.rawHandle a = w.rawHandle b → w.rawHandle a ≠ nullptr → a = b
  closed_once : ∀ h, w.closed.count h ≤ 1
  closed_not_extracted : ∀ h ∈ w.closed, h ∉ w.extracted
  held_not_closed : ∀ a ∈ w.live, w.rawHandle a ≠ nullptr → w.rawHandle a ∉ w.closed

theorem owner_unique {w : World} (hnodup : (held w).Nodup) {a b : Addr} (ha : a ∈ w.live)
    (hb : b ∈ w.live) (heq : w.rawHandle a = w.rawHandle b) (hne : w.rawHandle a ≠ nullptr) :
    a = b := by
  by_contra hab
  have hmem : w.rawHandle a ∈ held (w.leave a) :=
    mem_held.mpr ⟨hne, b, Finset.mem_erase.mpr ⟨Ne.symm hab, hb⟩, heq.symm⟩
  rw [held_leave ha, Multiset.nodup_add] at hnodup
  exact Multiset.disjoint_left.mp hnodup.2.2 (mem_owned.mpr ⟨rfl, hne⟩) hmem

theorem Accounted.uniqueOwnership {w : World} (h : Accounted w) : UniqueOwnership w := by
  obtain ⟨L, hL⟩ := h.ledger
  obtain ⟨hheld, hclosed, hheld_closed, hclosed_extracted, _⟩ := L.separate
  rw [hL.held] at hheld hheld_closed
  rw [hL.closed] at hclosed hheld_closed hclosed_extracted
  rw [hL.extracted] at hclosed_extracted
  refine ⟨fun a ha b hb => owner_unique hheld ha hb, Multiset.nodup_iff_count_le_one.mp hclosed,
    fun x hx => Multiset.disjoint_left.mp hclosed_extracted hx, fun a ha hne => ?_⟩
  exact Multiset.disjoint_left.mp hheld_closed (mem_held.mpr ⟨hne, a, ha, rfl⟩)

/-- Whatever the wrappers do, every raw handle has at most one owner and is closed at most
once, and never if it was extracted or is still held. -/
theorem unique_ownership_along (es : List Event) :
    HoldsAlong Step UniqueOwnership initial es := by
  intro es₁ w _ h
  exact (h.invariant accounted_step accounted_initial).uniqueOwnership

structure NoLeak (w : World) : Prop where
  accounted : ∀ h ∈ w.given,
    (∃ a ∈ w.live, w.rawHandle a = h) ∨ h ∈ w.delivered ∨ h ∈ w.closed
  closed_at_end : w.live = ∅ → ∀ h ∈ w.given, h ∉ w.delivered → h ∈ w.closed

/-- The target of a move assignment owns nothing. -/
def TargetEmpty (w : World) (e : Event) : Prop :=
  ∀ k this rhs, e = .moveAssign k this rhs → w.rawHandle this = nullptr

/-- A wrapper that is extracted from owns nothing. -/
def SourceEmpty (w : World) (e : Event) : Prop :=
  ∀ k this, e = .intoRaw k this → w.rawHandle this = nullptr

def WrapperEmpty (w : World) (e : Event) : Prop := SourceEmpty w e ∧ TargetEmpty w e

theorem overwritten_eq_zero_iff (w : World) (e : Event) :
    overwritten w e = 0 ↔ TargetEmpty w e := by
  constructor
  · rintro h k this rhs rfl
    exact owned_eq_zero_iff.mp h
  · intro h
    cases e with
    | moveAssign k this rhs => rw [overwritten, h k this rhs rfl, owned_nullptr]
    | _ => rfl

theorem extraction_eq_zero_iff (w : World) (e : Event) :
    extraction w e = 0 ↔ SourceEmpty w e := by
  constructor
  · rintro h k this rfl
    exact owned_eq_zero_iff.mp h
  · intro h
    cases e with
    | intoRaw k this => rw [extraction, h k this rfl, owned_nullptr]
    | _ => rfl

theorem Books.noLeak_iff {w : World} {L : Ledger HANDLE} (h : Books w L) (hw : Accounted w) :
    NoLeak w ↔ L.extracted = 0 ∧ L.lost = 0 := by
  have hmem : ∀ x ∈ w.given, (x ∈ L.held ↔ ∃ a ∈ w.live, w.rawHandle a = x) := by
    intro x hx
    have hne : x ≠ nullptr := by
      rintro rfl
      exact hw.given_nonnull hx
    rw [h.held, mem_held, and_iff_right hne]
  have hnone : ∀ x, x ∉ w.delivered := by
    intro x
    rw [hw.delivered]
    exact Multiset.notMem_zero x
  rw [L.kept_iff, h.given, h.closed]
  constructor
  · intro hleak x hx
    rw [hmem x hx]
    exact (hleak.accounted x hx).imp_right fun hor => hor.resolve_left (hnone x)
  · intro hkept
    refine ⟨fun x hx => ?_, fun hlive x hx _ => ?_⟩
    · rw [← hmem x hx]
      exact (hkept x hx).imp_right Or.inr
    · rcases hkept x hx with hheld | hclosed
      · obtain ⟨a, ha, _⟩ := (hmem x hx).mp hheld
        rw [hlive] at ha
        exact absurd ha (Finset.notMem_empty a)
      · exact hclosed

theorem noLeak_step (w : World) (e : Event) (w' : World) (h : Accounted w) (hleak : NoLeak w)
    (hs : Step w e w') : NoLeak w' ↔ WrapperEmpty w e := by
  obtain ⟨L, hL⟩ := h.ledger
  obtain ⟨L', hL', hlost⟩ := hL.step hs
  obtain ⟨hextracted, hnone⟩ := (hL.noLeak_iff h).mp hleak
  obtain ⟨c, hb⟩ := step_books hs
  have hextracted' : L'.extracted = extraction w e := by
    rw [hL'.extracted, hb.extracted, ← hL.extracted, hextracted, add_zero]
  rw [hL'.noLeak_iff (accounted_step w e w' h hs), hextracted', hlost, hnone, add_zero,
    extraction_eq_zero_iff, overwritten_eq_zero_iff, WrapperEmpty]

theorem noLeak_initial : NoLeak initial :=
  (books_initial.noLeak_iff accounted_initial).mpr ⟨rfl, rfl⟩

/-- A run leaks nothing exactly if no wrapper in it is assigned to or extracted from while it
still owns a raw handle. -/
theorem no_leak_iff_wrappers_empty (es : List Event) :
    HoldsAlong Step NoLeak initial es ↔ MeetsAlong Step WrapperEmpty initial es :=
  holdsAlong_iff_meetsAlong Accounted accounted_step noLeak_step accounted_initial noLeak_initial

/-- What an assignment overwrites is nowhere, and neither is what an extraction takes out. -/
theorem wrappers_leak :
    ¬HoldsAlong Step NoLeak initial [.construct 0 1, .construct 1 2, .moveAssign .handle 0 1] ∧
    ¬HoldsAlong Step NoLeak initial [.construct 0 1, .intoRaw .handle 0] := by
  constructor
  · intro h
    obtain ⟨w, hw⟩ : ∃ w, w = next (next (next initial (.construct 0 1)) (.construct 1 2))
      (.moveAssign .handle 0 1) := ⟨_, rfl⟩
    have hrun : Execution Step initial
        [.construct 0 1, .construct 1 2, .moveAssign .handle 0 1] w :=
      .tail (.tail (.single ⟨by decide, rfl⟩) ⟨by decide, rfl⟩) ⟨by decide, hw⟩
    have hleak := (h _ w (List.prefix_refl _) hrun).accounted 1 (by rw [hw]; decide)
    rw [hw] at hleak
    exact absurd hleak (by decide)
  · intro h
    obtain ⟨w, hw⟩ : ∃ w, w = next (next initial (.construct 0 1)) (.intoRaw .handle 0) :=
      ⟨_, rfl⟩
    have hrun : Execution Step initial [.construct 0 1, .intoRaw .handle 0] w :=
      .tail (.single ⟨by decide, rfl⟩) ⟨by decide, hw⟩
    have hleak := (h _ w (List.prefix_refl _) hrun).accounted 1 (by rw [hw]; decide)
    rw [hw] at hleak
    exact absurd hleak (by decide)

end IocpOwnership
