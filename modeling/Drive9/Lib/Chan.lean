import Mathlib.Tactic.Common

/-!
This module contains a buffered Go channel with at most one sender, as it is for senders that hold a
lock.
-/

structure Chan (α : Type) where
  cap : Nat
  buf : List α
  -- a send that waits for room
  sender : Option α

namespace Chan

variable {α : Type}

def make (cap : Nat) : Chan α := ⟨cap, [], none⟩

def send (c : Chan α) (a : α) : Chan α :=
  if c.buf.length < c.cap then { c with buf := c.buf ++ [a] } else { c with sender := some a }

def receive (c : Chan α) : Option (α × Chan α) :=
  match c.buf with
  | [] => none
  | a :: buf => some (a, { c with buf := buf ++ c.sender.toList, sender := none })

def pending (c : Chan α) : List α := c.buf ++ c.sender.toList

variable {c c' : Chan α}

theorem pending_send (hs : c.sender = none) (a : α) : (c.send a).pending = c.pending ++ [a] := by
  unfold send pending
  split
  . simp [hs]
  . simp [hs]

theorem pending_receive (h : c.receive = some (a, c'))
    : c.buf.head? = some a ∧ c.pending = a :: c'.pending := by
  unfold receive at h
  split at h
  . contradiction
  . next b buf hbuf =>
    cases h
    simp [pending, hbuf]

theorem send_of_lt (h : c.buf.length < c.cap) : c.send a = { c with buf := c.buf ++ [a] } := by
  unfold send
  rw [if_pos h]

theorem receive_eq_some (hs : c.sender = none) (h : c.receive = some (a, c'))
    : c.buf = a :: c'.buf ∧ c'.cap = c.cap ∧ c'.sender = none := by
  unfold receive at h
  rw [hs] at h
  split at h
  . contradiction
  . next b buf hbuf =>
    cases h
    rw [hbuf, Option.toList_none, List.append_nil]
    exact ⟨rfl, rfl, rfl⟩

end Chan
