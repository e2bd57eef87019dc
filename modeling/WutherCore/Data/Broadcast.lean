import Mathlib.Data.List.Basic

/-!
# Broadcast channels

A channel that gives each value to every receiver.  A receiver is its position among the values that
have been sent: it starts behind those that were sent before it subscribed, and falls behind for good
when more values come than the channel keeps.
-/

namespace WutherCore.Data

variable {α : Type*}

/-- A channel keeps the last `capacity` of the values that were sent. -/
structure Broadcast (α : Type*) where
  capacity : Nat
  sent : List α := []

/-- What a receiver finds. -/
inductive Received (α : Type*)
  | value (a : α)
  | lagged
  | closed
  | pending

namespace Broadcast

variable (ch : Broadcast α)

/-- The position of a new receiver. -/
def subscribe : Nat := ch.sent.length

/-- A value is sent. -/
def send (a : α) : Broadcast α := { ch with sent := ch.sent ++ [a] }

/-- What a receiver at a position finds; `closed` when no sender is left. -/
def recv (closed : Bool) (pos : Nat) : Received α :=
  match ch.sent[pos]? with
  | some a => if pos + ch.capacity < ch.sent.length then .lagged else .value a
  | none => if closed then .closed else .pending

@[simp] theorem capacity_send (a : α) : (ch.send a).capacity = ch.capacity := rfl

@[simp] theorem sent_send (a : α) : (ch.send a).sent = ch.sent ++ [a] := rfl

variable {ch}

theorem recv_zero {a : α} (hcap : 0 < ch.capacity) (h : ch.sent = [a]) (closed : Bool) :
    ch.recv closed 0 = .value a := by
  have hroom : ch.capacity ≠ 0 := by omega
  simp [recv, h, hroom]

theorem recv_of_le {pos : Nat} (h : ch.sent.length ≤ pos) (closed : Bool) :
    ch.recv closed pos = if closed then .closed else .pending := by
  unfold recv
  rw [List.getElem?_eq_none h]

end Broadcast

end WutherCore.Data
