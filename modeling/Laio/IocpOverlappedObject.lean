import Laio.IocpCompletion
import Laio.LibObjects
import Laio.LibWords

/-! # `Overlapped` objects

A wrapper of the raw structure, whose 64-bit offset is stored in two halves. The system
writes the status of an operation into the same structure through its address. -/
namespace IocpOverlappedObject

open LibObjects LibWords IocpHandle IocpCompletion

structure OVERLAPPED where
  Internal : ULONG_PTR
  InternalHigh : ULONG_PTR
  Offset : DWORD
  OffsetHigh : DWORD
  hEvent : HANDLE
  deriving DecidableEq, Repr

structure Overlapped where
  rawOverlapped : OVERLAPPED
  deriving DecidableEq, Repr

namespace Overlapped

/-- The default constructor, with the member initializer `{}`. -/
def zeroed : Overlapped := ⟨⟨0, 0, 0, 0, nullptr⟩⟩

def setOffset (x : Overlapped) (offset : UInt64) : Overlapped :=
  ⟨{ x.rawOverlapped with Offset := offset.toUInt32, OffsetHigh := (offset >>> 32).toUInt32 }⟩

def offset (x : Overlapped) : UInt64 :=
  x.rawOverlapped.Offset.toUInt64 ||| x.rawOverlapped.OffsetHigh.toUInt64 <<< 32

def setEvent (x : Overlapped) (event : HANDLE) : Overlapped :=
  ⟨{ x.rawOverlapped with hEvent := event }⟩

def event (x : Overlapped) : HANDLE := x.rawOverlapped.hEvent

/-- `CreateEventW`: manual reset and initial state. -/
abbrev CreateEvent (κ : Type*) := κ → BOOL → BOOL → HANDLE × κ

def initializeWithAutoresetEvent {κ ε : Type*} (createEvent : CreateEvent κ) (winError : κ → ε)
    (k : κ) : Result ε Overlapped × κ :=
  let r := createEvent k 0 0
  if r.1 = nullptr then (.error (winError r.2), r.2) else (.ok (zeroed.setEvent r.1), r.2)

end Overlapped

structure Transfer where
  offset : UInt64
  event : HANDLE
  status : ULONG_PTR
  transferred : ULONG_PTR
  deriving DecidableEq, Repr

def transfer (x : Overlapped) : Transfer :=
  ⟨x.offset, x.event, x.rawOverlapped.Internal, x.rawOverlapped.InternalHigh⟩

theorem transfer_zeroed : transfer .zeroed = ⟨0, nullptr, 0, 0⟩ := by
  decide

theorem initializeWithAutoresetEvent_transfer {κ ε : Type*}
    (createEvent : Overlapped.CreateEvent κ) (winError : κ → ε) (k : κ) :
    let r := Overlapped.initializeWithAutoresetEvent createEvent winError k
    let answer := createEvent k 0 0
    r.2 = answer.2 ∧ if answer.1 = nullptr then r.1 = .error (winError answer.2)
      else r.1.map transfer = .ok ⟨0, answer.1, 0, 0⟩ := by
  intro r answer
  by_cases hnull : answer.1 = nullptr
  · have hr : r = (.error (winError answer.2), answer.2) := if_pos hnull
    rw [if_pos hnull, hr]
    exact ⟨rfl, rfl⟩
  · have hr : r = (.ok (Overlapped.zeroed.setEvent answer.1), answer.2) := if_neg hnull
    rw [if_neg hnull, hr]
    refine ⟨rfl, ?_⟩
    change Except.ok { transfer .zeroed with event := answer.1 } = _
    rw [transfer_zeroed]

inductive Call where
  | setOffset (offset : UInt64)
  | setEvent (event : HANDLE)
  /-- An assignment through the reference that `event()` returns. -/
  | assignEvent (event : HANDLE)
  /-- What the system writes through the address that `raw()` returns. -/
  | report (status transferred : ULONG_PTR)

/-- The class has no move operations of its own, so a move is a copy. -/
def overlappedClass : ValueClass Call Overlapped where
  call x
    | .setOffset offset => x.setOffset offset
    | .setEvent event => x.setEvent event
    | .assignEvent event => ⟨{ x.rawOverlapped with hEvent := event }⟩
    | .report status transferred =>
      ⟨{ x.rawOverlapped with Internal := status, InternalHigh := transferred }⟩
  moved := id

def transferClass : ValueClass Call Transfer where
  call t
    | .setOffset offset => { t with offset := offset }
    | .setEvent event => { t with event := event }
    | .assignEvent event => { t with event := event }
    | .report status transferred => { t with status := status, transferred := transferred }
  moved := id

@[simp] theorem offset_setOffset (x : Overlapped) (offset : UInt64) :
    (x.setOffset offset).offset = offset :=
  joinHalves_halves offset

theorem represents : Represents overlappedClass transferClass transfer where
  call x c := by
    cases c with
    | setOffset offset =>
      change Transfer.mk (x.setOffset offset).offset _ _ _ = _
      rw [offset_setOffset]
      rfl
    | setEvent event => rfl
    | assignEvent event => rfl
    | report status transferred => rfl
  moved x := rfl

theorem transfer_bijective : Function.Bijective transfer := by
  constructor
  · rintro ⟨⟨i, j, low, high, e⟩⟩ ⟨⟨i', j', low', high', e'⟩⟩ h
    obtain ⟨hoffset, rfl, rfl, rfl⟩ := Transfer.mk.inj h
    obtain ⟨rfl, rfl⟩ := joinHalves_inj.mp hoffset
    rfl
  · rintro ⟨offset, event, status, transferred⟩
    refine ⟨⟨⟨status, transferred, lowHalf offset, highHalf offset, event⟩⟩, ?_⟩
    change Transfer.mk (joinHalves _ _) _ _ _ = _
    rw [joinHalves_halves]
    rfl

/-- However `Overlapped` objects are constructed, set, reported on, copied and moved, every
object returns the 64-bit offset and the event last given to it or to what it was copied
from, next to the status last reported, and these values are all there is to an object. With
an autoreset event, one starts at offset zero, or not at all if there is no event. -/
theorem overlapped_objects {ι κ ε : Type*} [DecidableEq ι] :
    transfer .zeroed = ⟨0, nullptr, 0, 0⟩ ∧
    (∀ (memory : ι → Overlapped) (program : List (Event ι Call Overlapped)),
      transfer ∘ overlappedClass.run memory program =
        transferClass.run (transfer ∘ memory) (program.map (Event.map transfer))) ∧
    Function.Bijective transfer ∧
    ∀ (createEvent : Overlapped.CreateEvent κ) (winError : κ → ε) (k : κ),
      let r := Overlapped.initializeWithAutoresetEvent createEvent winError k
      let answer := createEvent k 0 0
      r.2 = answer.2 ∧ if answer.1 = nullptr then r.1 = .error (winError answer.2)
        else r.1.map transfer = .ok ⟨0, answer.1, 0, 0⟩ :=
  ⟨transfer_zeroed, represents.run, transfer_bijective, initializeWithAutoresetEvent_transfer⟩

end IocpOverlappedObject
