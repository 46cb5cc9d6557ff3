import Mathlib.Algebra.BigOperators.Group.Multiset.Basic
import Mathlib.Tactic.Abel

/-! # Operations in transit

What was accepted is in flight, queued, delivered, or dropped. The law is a field, so no
booking can lose, double or invent an operation. -/
namespace LibTransit

variable {α : Type*}

structure Transit (α : Type*) where
  accepted : Multiset α
  inFlight : Multiset α
  queued : Multiset α
  delivered : Multiset α
  dropped : Multiset α
  law : delivered + dropped + (queued + inFlight) = accepted

namespace Transit

def empty : Transit α := ⟨0, 0, 0, 0, 0, rfl⟩

/-- Accepts operations and lets some of those on their way arrive in the queue. -/
def advance (T : Transit α) (s inFlight queued : Multiset α)
    (h : queued + inFlight = T.queued + (s + T.inFlight)) : Transit α where
  accepted := s + T.accepted
  inFlight := inFlight
  queued := queued
  delivered := T.delivered
  dropped := T.dropped
  law := by rw [← T.law, h]; abel

def take (T : Transit α) (d l rest : Multiset α) (h : T.queued = d + l + rest) : Transit α where
  accepted := T.accepted
  inFlight := T.inFlight
  queued := rest
  delivered := T.delivered + d
  dropped := T.dropped + l
  law := by rw [← T.law, h]; abel

variable (T : Transit α)

theorem settled_of_idle (hqueued : T.queued = 0) (hflight : T.inFlight = 0) :
    T.delivered + T.dropped = T.accepted := by
  rw [← T.law, hqueued, hflight, add_zero, add_zero]

end Transit

end LibTransit
