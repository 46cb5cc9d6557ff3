import Laio.IocpOwnership
import Laio.LibUniquePtr

/-! # The wrappers against unique pointers

A wrapper is meant to behave like a unique pointer whose deleter closes the handle. Run side
by side, the two agree until an assignment finds its target occupied, or an extraction its
wrapper. -/
namespace IocpUniquePtr

open LibExecutions LibUniquePtr IocpHandle IocpOwnership

def resource (h : HANDLE) : Option HANDLE := if h = nullptr then none else some h

/-- The wrappers as unique pointers; what callers received counts as released. -/
def pointers (w : World) : Store Addr HANDLE :=
  ⟨w.live, fun a => resource (w.rawHandle a), w.closed, w.delivered⟩

@[simp] theorem resource_nullptr : resource nullptr = none := rfl

theorem resource_eq_none_iff {h : HANDLE} : resource h = none ↔ h = nullptr := by
  simp [resource]

theorem owned_eq (h : HANDLE) : owned h = ((resource h).toList : Multiset HANDLE) := by
  unfold owned resource
  split <;> rfl

theorem resource_update (rawHandle : Addr → HANDLE) (a : Addr) (h : HANDLE) :
    (fun b => resource (Function.update rawHandle a h b)) =
      Function.update (fun b => resource (rawHandle b)) a (resource h) := by
  funext b
  by_cases hb : b = a
  · rw [hb, Function.update_self, Function.update_self]
  · rw [Function.update_of_ne hb, Function.update_of_ne hb]

section Operations

variable (w : World) {this other : Addr}

theorem pointers_ports (ports : Finset Addr) : pointers { w with ports := ports } = pointers w :=
  rfl

theorem pointers_construct (this : Addr) (handle : HANDLE) :
    pointers (Handle.construct w this handle) =
      (pointers w).construct this (resource handle) := by
  simp only [pointers, Handle.construct, World.enter, Store.construct, resource_update]

theorem pointers_moveConstruct (h : this ≠ other) :
    pointers (Handle.moveConstruct w this other) = (pointers w).moveConstruct this other := by
  simp only [pointers, Handle.moveConstruct, World.enter, World.write, Store.moveConstruct,
    Store.release, Store.construct, resource_update, resource_nullptr]
  rw [Function.update_comm h]

theorem pointers_destruct (this : Addr) :
    pointers (Handle.destruct w this) = (pointers w).destroy this := by
  rw [Handle.destruct_eq]
  simp only [pointers, World.leave, Store.destroy, owned_eq]

/-- An extraction takes the raw handle out of the wrapper, but its caller receives none. -/
theorem pointers_intoRaw (this : Addr) :
    pointers (handOut (Handle.intoRaw w this)) = (pointers w).handOut this ↔
      w.rawHandle this = nullptr := by
  have howns : (pointers (handOut (Handle.intoRaw w this))).owns =
      ((pointers w).handOut this).owns := by
    simp only [pointers, handOut, Handle.intoRaw, World.write, Store.handOut, Store.release,
      resource_update, resource_nullptr]
  have hreleased : ((pointers w).handOut this).released =
      owned (w.rawHandle this) + w.delivered := by
    rw [owned_eq]
    rfl
  have hdelivered : (pointers (handOut (Handle.intoRaw w this))).released = w.delivered :=
    zero_add _
  rw [← owned_eq_zero_iff]
  constructor
  · intro h
    rw [h, hreleased] at hdelivered
    exact add_eq_right.mp hdelivered
  · intro hempty
    rw [hempty, zero_add] at hreleased
    exact Store.ext rfl howns rfl (hdelivered.trans hreleased.symm)

/-- The assignment neither keeps a wrapper that is its own source, nor closes what an
occupied target held. -/
theorem pointers_moveAssign (this other : Addr) :
    pointers (Handle.moveAssign w this other) = (pointers w).moveAssign this other ↔
      w.rawHandle this = nullptr := by
  have howns : (pointers (Handle.moveAssign w this other)).owns =
      Function.update (Function.update (pointers w).owns this ((pointers w).owns other))
        other none := by
    simp only [pointers, Handle.moveAssign, World.write, resource_update, resource_nullptr]
  constructor
  · intro h
    by_contra hne
    have hsome : (pointers w).owns this = some (w.rawHandle this) := if_neg hne
    by_cases heq : this = other
    · subst heq
      have hself := (pointers w).owns_moveAssign_self this
      rw [← h, howns, Function.update_self, hsome] at hself
      cases hself
    · have hdeleted := (pointers w).deleted_moveAssign this other heq
      rw [← h, hsome] at hdeleted
      have hcard := congrArg Multiset.card hdeleted
      rw [Multiset.card_add] at hcard
      change Multiset.card w.closed = 1 + Multiset.card w.closed at hcard
      omega
  · intro hnull
    have hempty : (pointers w).owns this = none := resource_eq_none_iff.mpr hnull
    rw [(pointers w).moveAssign_of_empty this other hempty]
    have hswap : Function.update (Function.update (pointers w).owns this
        ((pointers w).owns other)) other none =
        Function.update (Function.update (pointers w).owns other none) this
          ((pointers w).owns other) := by
      by_cases heq : this = other
      · subst heq
        rw [Function.update_idem, Function.update_idem, hempty]
      · exact Function.update_comm heq _ _ _
    rw [← hswap, ← howns]
    rfl

end Operations

def nextPointers (s : Store Addr HANDLE) : Event → Store Addr HANDLE
  | .construct this handle => s.construct this (resource handle)
  | .moveConstruct _ this other => s.moveConstruct this other
  | .moveAssign _ this rhs => s.moveAssign this rhs
  | .intoRaw _ this => s.handOut this
  | .destruct _ this => s.destroy this
  | .wrap this param source =>
    ((s.moveConstruct param source).moveConstruct this param).destroy param
  | .fromRawHandle this param handle =>
    ((s.construct param (resource handle)).moveConstruct this param).destroy param
  | .create this temp param ret =>
    if ret = nullptr then
      s
    else
      let s := ((s.construct param (resource ret)).moveConstruct temp param).destroy param
      (s.moveConstruct this temp).destroy temp

theorem pointers_portConstruct (w : World) {this param : Addr} (h : this ≠ param) :
    pointers (CompletionPort.construct w this param) =
      ((pointers w).moveConstruct this param).destroy param := by
  rw [CompletionPort.construct, pointers_ports, pointers_destruct, pointers_moveConstruct w h]

theorem pointers_next {w : World} {e : Event} (he : Enabled w e) :
    pointers (next w e) = nextPointers (pointers w) e ↔ WrapperEmpty w e := by
  have hother : (∀ k this rhs, e ≠ .moveAssign k this rhs) → (∀ k this, e ≠ .intoRaw k this) →
      WrapperEmpty w e := fun hassign hout =>
    ⟨fun k this heq => (hout k this heq).elim, fun k this rhs heq => (hassign k this rhs heq).elim⟩
  cases e with
  | construct this handle =>
    exact iff_of_true (pointers_construct w this handle) (hother nofun nofun)
  | moveConstruct k this other =>
    have hne : this ≠ other := by
      rintro rfl
      exact he.1 he.2.1
    have hmove := pointers_moveConstruct w hne
    cases k with
    | handle => exact iff_of_true hmove (hother nofun nofun)
    | completionPort => exact iff_of_true hmove (hother nofun nofun)
  | moveAssign k this rhs =>
    have htarget : WrapperEmpty w (.moveAssign k this rhs) ↔ w.rawHandle this = nullptr := by
      constructor
      · exact fun h => h.2 k this rhs rfl
      · refine fun h => ⟨nofun, ?_⟩
        rintro _ _ _ ⟨⟩
        exact h
    rw [htarget, ← pointers_moveAssign w this rhs]
    cases k with
    | handle => rfl
    | completionPort => rfl
  | intoRaw k this =>
    have hsource : WrapperEmpty w (.intoRaw k this) ↔ w.rawHandle this = nullptr := by
      constructor
      · exact fun h => h.1 k this rfl
      · refine fun h => ⟨?_, nofun⟩
        rintro _ _ ⟨⟩
        exact h
    rw [hsource, ← pointers_intoRaw w this]
    cases k with
    | handle => rfl
    | completionPort => rfl
  | destruct k this =>
    have hdrop := pointers_destruct w this
    cases k with
    | handle => exact iff_of_true hdrop (hother nofun nofun)
    | completionPort => exact iff_of_true hdrop (hother nofun nofun)
  | wrap this param source =>
    obtain ⟨_, hparam, hne, hsource, _⟩ := he
    have hne' : param ≠ source := by
      rintro rfl
      exact hparam hsource
    refine iff_of_true ?_ (hother nofun nofun)
    change pointers (CompletionPort.construct _ this param) = _
    rw [pointers_portConstruct _ hne, pointers_moveConstruct w hne']
    rfl
  | fromRawHandle this param handle =>
    refine iff_of_true ?_ (hother nofun nofun)
    change pointers (CompletionPort.construct _ this param) = _
    rw [pointers_portConstruct _ he.2.2.1, pointers_construct]
    rfl
  | create this temp param ret =>
    obtain ⟨_, _, _, hne, hne', _⟩ := he
    refine iff_of_true ?_ (hother nofun nofun)
    change pointers (CompletionPort.create w this temp param ret) = _
    rw [CompletionPort.create, nextPointers]
    split
    · rfl
    · rw [CompletionPort.destruct, pointers_ports, pointers_destruct, CompletionPort.moveConstruct,
        pointers_ports, pointers_moveConstruct _ hne, pointers_portConstruct _ hne',
        pointers_construct]

def PairStep (p : World × Store Addr HANDLE) (e : Event) (q : World × Store Addr HANDLE) : Prop :=
  Step p.1 e q.1 ∧ q.2 = nextPointers p.2 e

def Alike (p : World × Store Addr HANDLE) : Prop := pointers p.1 = p.2

/-- A run of the wrappers is that of unique pointers, with the same handles closed and
received by callers at every moment, exactly if no occupied wrapper in it is assigned to or
extracted from. -/
theorem unique_pointers_iff_wrappers_empty (es : List Event) :
    HoldsAlong PairStep Alike (initial, pointers initial) es ↔
      MeetsAlong PairStep (fun p e => WrapperEmpty p.1 e) (initial, pointers initial) es := by
  refine holdsAlong_iff_meetsAlong (fun _ => True) (fun _ _ _ _ _ => trivial) ?_ trivial rfl
  rintro ⟨w, s⟩ e ⟨w', s'⟩ _ hs ⟨⟨he, hw⟩, hs'⟩
  obtain rfl : pointers w = s := hs
  obtain rfl : w' = next w e := hw
  obtain rfl : s' = nextPointers (pointers w) e := hs'
  exact pointers_next he

end IocpUniquePtr
