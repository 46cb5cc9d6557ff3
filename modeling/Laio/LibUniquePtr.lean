import Mathlib.Data.Finset.Erase
import Mathlib.Data.Finset.Insert
import Mathlib.Data.Multiset.AddSub
import Mathlib.Logic.Function.Basic

/-! # Unique pointers

Every pointer object owns at most one resource. A move hands the resource on, and what a
pointer still owns is deleted when it is destroyed or takes over another resource. -/
namespace LibUniquePtr

variable {ι α : Type*} [DecidableEq ι]

@[ext]
structure Store (ι α : Type*) where
  live : Finset ι
  owns : ι → Option α
  deleted : Multiset α
  released : Multiset α

namespace Store

variable (s : Store ι α) (this other : ι)

def construct (p : Option α) : Store ι α :=
  { s with live := insert this s.live, owns := Function.update s.owns this p }

def release : Option α × Store ι α :=
  (s.owns this, { s with owns := Function.update s.owns this none })

/-- The new resource is taken over before the old one is deleted. -/
def reset (p : Option α) : Store ι α :=
  { s with owns := Function.update s.owns this p, deleted := (s.owns this).toList + s.deleted }

def moveConstruct : Store ι α :=
  let (p, s) := s.release other
  s.construct this p

def moveAssign : Store ι α :=
  let (p, s) := s.release other
  s.reset this p

/-- A release to somebody who is no pointer. -/
def handOut : Store ι α :=
  let (p, s) := s.release this
  { s with released := p.toList + s.released }

def destroy : Store ι α :=
  { s with live := s.live.erase this, deleted := (s.owns this).toList + s.deleted }

theorem moveAssign_of_empty (h : s.owns this = none) : s.moveAssign this other =
    { s with owns := Function.update (Function.update s.owns other none) this (s.owns other) } := by
  have hempty : Function.update s.owns other none this = none := by
    by_cases heq : this = other
    · rw [heq]
      exact Function.update_self _ _ _
    · rw [Function.update_of_ne heq, h]
  simp [moveAssign, release, reset, hempty]

theorem owns_moveAssign_self : (s.moveAssign this this).owns this = s.owns this :=
  Function.update_self _ _ _

theorem deleted_moveAssign (h : this ≠ other) :
    (s.moveAssign this other).deleted = (s.owns this).toList + s.deleted := by
  change ((Function.update s.owns other none this).toList : Multiset α) + _ = _
  rw [Function.update_of_ne h]

end Store

end LibUniquePtr
