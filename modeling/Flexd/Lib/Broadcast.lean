import Mathlib.Data.List.Basic

/-!
# Broadcast channels

A broadcast channel keeps the last `cap` messages for every receiver. A
receiver is the position of the message it waits for; one that falls behind
what is kept is told how many messages it missed, once, and goes on with the
oldest that is left. Either result completes `recv`, and a receiver has one of
them coming exactly while it is `Pending`.
-/

namespace Flexd.Lib

/-- A channel, as every message ever sent, the oldest first. -/
structure Broadcast (α : Type*) where
  sent : List α := []

namespace Broadcast

variable {α : Type*}

inductive Received (α : Type*) where
  | lagged (missed : Nat)
  | message (a : α)

def send (c : Broadcast α) (a : α) : Broadcast α := ⟨c.sent ++ [a]⟩

/-- A new receiver waits for the next message. -/
def subscribe (c : Broadcast α) : Nat := c.sent.length

/-- What `recv` completes with, and the receiver's next position; none while it waits. -/
def recv (cap : Nat) (c : Broadcast α) (next : Nat) : Option (Received α × Nat) :=
  if next < c.sent.length - cap then
    some (.lagged (c.sent.length - cap - next), c.sent.length - cap)
  else (c.sent[next]?).map fun a => (.message a, next + 1)

/-- Something is there for the receiver. -/
def Pending (c : Broadcast α) (next : Nat) : Prop := next < c.sent.length

example (a b c : α) : recv 1 ⟨[a, b, c]⟩ 0 = some (.lagged 2, 2) ∧
    recv 1 ⟨[a, b, c]⟩ 2 = some (.message c, 3) := ⟨rfl, rfl⟩

variable {c : Broadcast α} {cap next next' : Nat} {r : Received α}

theorem pending_send (h : next ≤ c.sent.length) (a : α) : (c.send a).Pending next := by
  unfold Pending send
  rw [List.length_append]
  exact Nat.lt_succ_of_le h

/-- A receiver never gets ahead of the channel. -/
theorem recv_le (h : c.recv cap next = some (r, next')) : next' ≤ c.sent.length := by
  unfold recv at h
  split at h
  · cases h
    exact Nat.sub_le _ _
  · obtain ⟨a, ha, he⟩ := Option.map_eq_some_iff.mp h
    cases he
    exact (List.getElem?_eq_some_iff.mp ha).1

end Broadcast

end Flexd.Lib
