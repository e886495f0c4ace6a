import Mathlib.Data.List.Basic

/-!
# A stream with a bounded channel

Messages for a reader wait in a channel and are sent in order. A message may
also be sent ahead of the channel, as the first one of a stream is. `newest` is
the message the reader ends on once the channel is drained.
-/
namespace Kconmon.Lib

structure Outbox (μ : Type) where
  queue : List μ := []
  /-- What went out, oldest first. -/
  sent : List μ := []
  deriving DecidableEq

namespace Outbox
variable {μ : Type}

def newest (o : Outbox μ) : Option μ := (o.sent ++ o.queue).getLast?

def full (depth : Nat) (o : Outbox μ) : Bool := depth ≤ o.queue.length

/-- A non-blocking send into the channel. -/
def offer (depth : Nat) (m : μ) (o : Outbox μ) : Option (Outbox μ) :=
  if o.full depth then none else some { o with queue := o.queue ++ [m] }

/-- A send that bypasses the channel. -/
def sendNow (m : μ) (o : Outbox μ) : Outbox μ := { o with sent := o.sent ++ [m] }

/-- The oldest waiting message goes out. -/
def receive (o : Outbox μ) : Option (Outbox μ) :=
  match o.queue with
  | [] => none
  | m :: queue => some { queue, sent := o.sent ++ [m] }

/-- Every message that entered, oldest first. -/
def all (o : Outbox μ) : List μ := o.sent ++ o.queue

variable {o o' : Outbox μ} {depth : Nat} {m : μ}

theorem all_offer (taken : o.offer depth m = some o') : o'.all = o.all ++ [m] := by
  unfold offer at taken
  split at taken <;> cases taken
  simp [all]

theorem all_receive (read : o.receive = some o') : o'.all = o.all := by
  unfold receive at read
  split at read <;> cases read
  rename_i waiting
  simp [all, waiting]

theorem offer_eq_none : o.offer depth m = none ↔ o.full depth = true := by
  unfold offer
  split <;> simp [*]

section
variable (taken : o.offer depth m = some o')
include taken

theorem newest_offer : o'.newest = some m := by
  unfold offer at taken
  split at taken <;> cases taken
  simp [newest]

theorem queue_offer : o'.queue ≠ [] := by
  unfold offer at taken
  split at taken <;> cases taken
  simp

theorem sent_offer : o'.sent = o.sent := by
  unfold offer at taken
  split at taken <;> cases taken
  rfl

end

theorem sent_receive (read : o.receive = some o') : o'.sent ≠ [] := by
  unfold receive at read
  split at read <;> cases read
  simp

theorem newest_receive (read : o.receive = some o') : o'.newest = o.newest := by
  unfold receive at read
  split at read <;> cases read
  rename_i waiting
  simp [newest, waiting]

/-- What waits already is read after the message sent ahead of it. -/
theorem newest_sendNow (m : μ) (o : Outbox μ) :
    (o.sendNow m).newest = if o.queue = [] then some m else o.newest := by
  unfold newest sendNow
  split
  · rename_i empty
    simp [empty]
  · rename_i waiting
    rw [List.getLast?_append_of_ne_nil _ waiting, List.getLast?_append_of_ne_nil _ waiting]

theorem newest_drained (drained : o.queue = []) : o.newest = o.sent.getLast? := by
  rw [newest, drained, List.append_nil]

end Outbox

end Kconmon.Lib
