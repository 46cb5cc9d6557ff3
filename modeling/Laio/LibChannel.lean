import Mathlib.Data.List.Basic

/-! # A first-in first-out channel

What was taken and what is pending make up what was sent, in order. Of the messages taken,
those to keep reach the receiver, and nothing reaches it twice or out of order. The laws are
fields, so no operation can break them. -/
namespace LibChannel

variable {α : Type*}

structure Channel (keep : α → Bool) where
  sent : List α
  taken : List α
  received : List α
  pending : List α
  law : taken ++ pending = sent
  ordered : received.Sublist taken
  kept : (taken.filter keep).Sublist received

namespace Channel

variable {keep : α → Bool}

def found (pending : List α) : Channel keep :=
  ⟨pending, [], [], pending, List.nil_append _, List.Sublist.refl _, List.Sublist.refl _⟩

def send (c : Channel keep) (a : α) : Channel keep where
  sent := c.sent ++ [a]
  taken := c.taken
  received := c.received
  pending := c.pending ++ [a]
  law := by rw [← List.append_assoc, c.law]
  ordered := c.ordered
  kept := c.kept

/-- Takes the oldest `n` messages and hands out some of them. -/
def receive (c : Channel keep) (n : ℕ) (out : List α) (hordered : out.Sublist (c.pending.take n))
    (hkept : ((c.pending.take n).filter keep).Sublist out) : Channel keep where
  sent := c.sent
  taken := c.taken ++ c.pending.take n
  received := c.received ++ out
  pending := c.pending.drop n
  law := by rw [List.append_assoc, List.take_append_drop, c.law]
  ordered := c.ordered.append hordered
  kept := by
    rw [List.filter_append]
    exact c.kept.append hkept

/-- Takes the oldest `n` messages, or all of them if there are fewer, and withholds none. -/
def receiveAll (c : Channel keep) (n : ℕ) : Channel keep :=
  c.receive n (c.pending.take n) (List.Sublist.refl _) List.filter_sublist

variable (c : Channel keep) (a : α) (n : ℕ)

@[simp] theorem sent_send : (c.send a).sent = c.sent ++ [a] := rfl
@[simp] theorem received_send : (c.send a).received = c.received := rfl
@[simp] theorem pending_send : (c.send a).pending = c.pending ++ [a] := rfl

section Receive

variable {c n} {out : List α} (hordered : out.Sublist (c.pending.take n))
  (hkept : ((c.pending.take n).filter keep).Sublist out)

@[simp] theorem sent_receive : (c.receive n out hordered hkept).sent = c.sent := rfl

@[simp] theorem received_receive :
    (c.receive n out hordered hkept).received = c.received ++ out := rfl

@[simp] theorem pending_receive :
    (c.receive n out hordered hkept).pending = c.pending.drop n := rfl

end Receive

@[simp] theorem sent_receiveAll : (c.receiveAll n).sent = c.sent := rfl

@[simp] theorem received_receiveAll :
    (c.receiveAll n).received = c.received ++ c.pending.take n := rfl

@[simp] theorem pending_receiveAll : (c.receiveAll n).pending = c.pending.drop n := rfl

/-- If every message is one to keep, none is lost. -/
theorem received_append_pending (h : ∀ a ∈ c.sent, keep a = true) :
    c.received ++ c.pending = c.sent := by
  have hall : c.taken.filter keep = c.taken := by
    rw [List.filter_eq_self]
    intro a ha
    apply h a
    rw [← c.law]
    exact List.mem_append_left _ ha
  have hkept := c.kept
  rw [hall] at hkept
  rw [c.ordered.antisymm hkept, c.law]

end Channel

abbrev Lossless (α : Type*) := Channel fun _ : α => true

theorem Lossless.law (c : Lossless α) : c.received ++ c.pending = c.sent :=
  c.received_append_pending fun _ _ => rfl

end LibChannel
