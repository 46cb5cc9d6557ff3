import Mathlib.Algebra.BigOperators.Group.Finset.Basic
import Mathlib.Logic.Function.Basic

/-! # The owning wrappers `Handle` and `CompletionPort`

Objects live at addresses; a completion port is its one member, a `Handle` at the same
address. A raw handle stands for one acquisition of it, so a value that the system hands
out again counts as a new handle. -/
namespace IocpHandle

abbrev Addr := ℕ
abbrev HANDLE := ℕ

def nullptr : HANDLE := 0

structure World where
  live : Finset Addr
  ports : Finset Addr
  rawHandle : Addr → HANDLE
  given : Multiset HANDLE
  /-- The calls of `CloseHandle`. -/
  closed : Multiset HANDLE
  /-- What extractions took out of wrappers. -/
  extracted : Multiset HANDLE
  /-- What the callers of extractions got to read. -/
  delivered : Multiset HANDLE

def initial : World := ⟨∅, ∅, fun _ => nullptr, 0, 0, 0, 0⟩

/-- A reference to a variable that holds a raw handle, and may be gone. -/
structure HandleRef where
  value : HANDLE
  alive : Bool
  deriving DecidableEq, Repr

/-- `none` where reading is undefined. -/
def HandleRef.read (r : HandleRef) : Option HANDLE := if r.alive then some r.value else none

/-- What a wrapper with this raw handle is responsible for. -/
def owned (h : HANDLE) : Multiset HANDLE := if h = nullptr then 0 else {h}

namespace World

def enter (w : World) (this : Addr) (h : HANDLE) : World :=
  { w with live := insert this w.live, rawHandle := Function.update w.rawHandle this h }

def write (w : World) (this : Addr) (h : HANDLE) : World :=
  { w with rawHandle := Function.update w.rawHandle this h }

def leave (w : World) (this : Addr) : World := { w with live := w.live.erase this }

def closeHandle (w : World) (h : HANDLE) : World := { w with closed := {h} + w.closed }

end World

@[simp] theorem owned_nullptr : owned nullptr = 0 := rfl

theorem owned_eq_zero_iff {h : HANDLE} : owned h = 0 ↔ h = nullptr := by
  unfold owned
  split <;> simp_all

theorem mem_owned {h h' : HANDLE} : h ∈ owned h' ↔ h = h' ∧ h' ≠ nullptr := by
  unfold owned
  split <;> simp_all

namespace Handle

def construct (w : World) (this : Addr) (handle : HANDLE) : World :=
  { w.enter this handle with given := owned handle + w.given }

def moveConstruct (w : World) (this other : Addr) : World :=
  (w.enter this (w.rawHandle other)).write other nullptr

def destruct (w : World) (this : Addr) : World :=
  if w.rawHandle this ≠ nullptr then
    (w.closeHandle (w.rawHandle this)).leave this
  else
    w.leave this

/-- Two writes in sequence; the first one drops what the target held. -/
def moveAssign (w : World) (this rhs : Addr) : World :=
  let w := w.write this (w.rawHandle rhs)
  w.write rhs nullptr

def intoRaw (w : World) (this : Addr) : HandleRef × World :=
  let temp := w.rawHandle this
  let w := w.write this nullptr
  -- `temp` is a local variable and ends with the call
  (⟨temp, false⟩, w)

variable (w : World) (this other : Addr) (handle : HANDLE)

@[simp] theorem live_construct : (construct w this handle).live = insert this w.live := rfl

@[simp] theorem live_moveConstruct : (moveConstruct w this other).live = insert this w.live := rfl

theorem destruct_eq : destruct w this =
    { w.leave this with closed := owned (w.rawHandle this) + w.closed } := by
  by_cases hraw : w.rawHandle this = nullptr
  · simp [destruct, hraw, World.leave]
  · simp [destruct, hraw, owned, World.leave, World.closeHandle]

@[simp] theorem live_destruct : (destruct w this).live = w.live.erase this := by
  rw [destruct_eq]
  rfl

@[simp] theorem rawHandle_moveConstruct : (moveConstruct w this other).rawHandle other = nullptr :=
  Function.update_self _ _ _

end Handle

namespace CompletionPort

/-- The by-value parameter is an object of its own, destroyed when the constructor is
done with it. -/
def construct (w : World) (this param : Addr) : World :=
  let w := Handle.moveConstruct w this param
  let w := Handle.destruct w param
  { w with ports := insert this w.ports }

def moveConstruct (w : World) (this other : Addr) : World :=
  let w := Handle.moveConstruct w this other
  { w with ports := insert this w.ports }

def moveAssign (w : World) (this rhs : Addr) : World := Handle.moveAssign w this rhs

def destruct (w : World) (this : Addr) : World :=
  let w := Handle.destruct w this
  { w with ports := w.ports.erase this }

def fromRawHandle (w : World) (this param : Addr) (handle : HANDLE) : World :=
  construct (Handle.construct w param handle) this param

/-- `ret` is the answer of the system. The port built from it is a temporary that is moved
into the returned variant; on an error no wrapper exists. -/
def create (w : World) (this temp param : Addr) (ret : HANDLE) : World :=
  if ret = nullptr then
    w
  else
    let w := construct (Handle.construct w param ret) temp param
    let w := moveConstruct w this temp
    destruct w temp

def intoRawHandle (w : World) (this : Addr) : HandleRef × World := Handle.intoRaw w this

@[simp] theorem live_construct (w : World) (this param : Addr) :
    (construct w this param).live = (insert this w.live).erase param := by
  simp [construct]

@[simp] theorem live_moveConstruct (w : World) (this other : Addr) :
    (moveConstruct w this other).live = insert this w.live := rfl

@[simp] theorem rawHandle_moveConstruct (w : World) (this other : Addr) :
    (moveConstruct w this other).rawHandle other = nullptr :=
  Handle.rawHandle_moveConstruct w this other

end CompletionPort

inductive Kind where
  | handle | completionPort
  deriving DecidableEq, Repr

def World.At (w : World) (k : Kind) (a : Addr) : Prop :=
  a ∈ w.live ∧ match k with
    | .handle => a ∉ w.ports
    | .completionPort => a ∈ w.ports

instance (w : World) (k : Kind) (a : Addr) : Decidable (w.At k a) := by
  cases k <;> simp only [World.At] <;> infer_instance

inductive Event where
  | construct (this : Addr) (handle : HANDLE)
  | moveConstruct (k : Kind) (this other : Addr)
  | moveAssign (k : Kind) (this rhs : Addr)
  | intoRaw (k : Kind) (this : Addr)
  | destruct (k : Kind) (this : Addr)
  | wrap (this param source : Addr)
  | fromRawHandle (this param : Addr) (handle : HANDLE)
  | create (this temp param : Addr) (ret : HANDLE)
  deriving DecidableEq, Repr

/-- Addresses of new objects are free, and raw handles are freshly acquired. -/
def Enabled (w : World) : Event → Prop
  | .construct this handle => this ∉ w.live ∧ handle ∉ w.given
  | .moveConstruct k this other => this ∉ w.live ∧ w.At k other
  | .moveAssign k this rhs => w.At k this ∧ w.At k rhs
  | .intoRaw k this => w.At k this
  | .destruct k this => w.At k this
  | .wrap this param source =>
    this ∉ w.live ∧ param ∉ w.live ∧ this ≠ param ∧ w.At .handle source
  | .fromRawHandle this param handle =>
    this ∉ w.live ∧ param ∉ w.live ∧ this ≠ param ∧ handle ∉ w.given
  | .create this temp param ret =>
    this ∉ w.live ∧ temp ∉ w.live ∧ param ∉ w.live ∧ this ≠ temp ∧ temp ≠ param ∧
      ret ∉ w.given

instance (w : World) (e : Event) : Decidable (Enabled w e) := by
  cases e <;> simp only [Enabled] <;> infer_instance

def handOut (r : HandleRef × World) : World :=
  { r.2 with extracted := owned r.1.value + r.2.extracted
             delivered := owned (r.1.read.getD nullptr) + r.2.delivered }

def next (w : World) : Event → World
  | .construct this handle => Handle.construct w this handle
  | .moveConstruct .handle this other => Handle.moveConstruct w this other
  | .moveConstruct .completionPort this other => CompletionPort.moveConstruct w this other
  | .moveAssign .handle this rhs => Handle.moveAssign w this rhs
  | .moveAssign .completionPort this rhs => CompletionPort.moveAssign w this rhs
  | .intoRaw .handle this => handOut (Handle.intoRaw w this)
  | .intoRaw .completionPort this => handOut (CompletionPort.intoRawHandle w this)
  | .destruct .handle this => Handle.destruct w this
  | .destruct .completionPort this => CompletionPort.destruct w this
  | .wrap this param source =>
    CompletionPort.construct (Handle.moveConstruct w param source) this param
  | .fromRawHandle this param handle => CompletionPort.fromRawHandle w this param handle
  | .create this temp param ret => CompletionPort.create w this temp param ret

def Step (w : World) (e : Event) (w' : World) : Prop := Enabled w e ∧ w' = next w e

end IocpHandle
