import Kconmon.Lib.GoMap
import Kconmon.Lib.Outbox
import Kconmon.Lib.Runs

/-!
# External check assignments

The manager records what every agent has to check and pushes changes to the
agents' streams. A PUT is one locked step that updates the record and collects
its pushes; the sends follow one channel at a time, outside the lock. Streams
subscribe, are sent the recorded assignment once, then drain their channel.
-/
namespace Kconmon.Controller.External
open Lib

/-- The depth of an agent's assignment channel. -/
def externalSubscriberBuffer : Nat := 16

structure ExternalTarget where
  name : String
  kind : String
  address : String
  port : Nat
  deriving DecidableEq

structure ExternalCheckSpec where
  definitionId : String
  target : ExternalTarget
  checkType : String
  intervalNs : Int
  timeoutNs : Int
  paramsJson : String
  deriving DecidableEq

/-- An assignment is absolute. Its timestamp is stamped per send and never compared. -/
abbrev Specs := List ExternalCheckSpec

structure ExternalCheckManager where
  assignments : GoMap String Specs := ∅
  /-- The agents whose last push could not be queued. -/
  resync : List String := []
  deriving DecidableEq

namespace ExternalCheckManager

def assignment (m : ExternalCheckManager) (agentID : String) : Specs :=
  (m.assignments.lookup agentID).getD []

def reset : ExternalCheckManager := {}

def store (agentID : String) (specs : Specs) (m : ExternalCheckManager) : ExternalCheckManager where
  assignments := AList.insert agentID specs m.assignments
  resync := m.resync.filter (· ≠ agentID)

def forget (agentID : String) (m : ExternalCheckManager) : ExternalCheckManager where
  assignments := m.assignments.erase agentID
  resync := m.resync.filter (· ≠ agentID)

def clearMark (agentID : String) (m : ExternalCheckManager) : ExternalCheckManager :=
  { m with resync := m.resync.filter (· ≠ agentID) }

def mark (agentID : String) (m : ExternalCheckManager) : ExternalCheckManager :=
  { m with resync := m.resync.insert agentID }

end ExternalCheckManager

/-- One agent's new state and the channels it goes to. The send loop has tried the first
`next` of them; `queued` tells whether one of these took it. -/
structure Push where
  agentID : String
  specs : Specs
  chans : List Nat
  next : Nat := 0
  queued : Bool := false
  deriving DecidableEq

/-! ## The locked step -/

section
variable (chans : String → List Nat) (desired : GoMap String Specs) (unknown : List String)

/-- The first loop's body: store a wanted assignment that differs or is to be sent again. -/
def install (acc : ExternalCheckManager × List Push) (e : Sigma fun _ : String => Specs) :
    ExternalCheckManager × List Push :=
  let (m, pushes) := acc
  if e.2 = [] then acc
  else if e.1 ∈ unknown ∧ m.assignment e.1 = [] then acc
  else if e.1 ∉ m.resync ∧ m.assignment e.1 = e.2 then acc
  else (m.store e.1 e.2, pushes ++ [{ agentID := e.1, specs := e.2, chans := chans e.1 }])

/-- The second loop's body: drop an assignment that is no longer wanted. -/
def withdraw (acc : ExternalCheckManager × List Push) (agentID : String) :
    ExternalCheckManager × List Push :=
  let (m, pushes) := acc
  if (desired.lookup agentID).getD [] ≠ [] then acc
  else (m.forget agentID, pushes ++ [{ agentID, specs := [], chans := chans agentID }])

/-- The third loop's body: a removal whose empty assignment never reached the agent. -/
def retryRemoval (acc : ExternalCheckManager × List Push) (agentID : String) :
    ExternalCheckManager × List Push :=
  let (m, pushes) := acc
  (m.clearMark agentID, pushes ++ [{ agentID, specs := [], chans := chans agentID }])

/-- What `apply` does under the mutex. -/
def applyLocked (ord : RangeOrder) (m : ExternalCheckManager) : ExternalCheckManager × List Push :=
  let acc := (ord.visit 0 desired.entries).foldl (install chans unknown) (m, [])
  let acc := (ord.visit 1 acc.1.assignments.keys).foldl (withdraw chans desired) acc
  (ord.visit 2 acc.1.resync).foldl (retryRemoval chans) acc

end

/-! ## Streams and sends -/

/-- A `WatchExternalChecks` stream and its channel. A closed one keeps its channel: a push
collected before it closed still sends there. -/
structure Stream where
  agentID : String
  box : Outbox Specs := {}
  started : Bool := false
  isOpen : Bool := true
  deriving DecidableEq

/-- The one initial send, of the assignment recorded at that moment. -/
def Stream.sendInitial (specs : Specs) (s : Stream) : Option Stream :=
  if s.started then none else some { s with started := true, box := s.box.sendNow specs }

/-- One turn of the pump: the oldest queued assignment goes out. -/
def Stream.receive (s : Stream) : Option Stream :=
  if s.started then s.box.receive.map fun box => { s with box } else none

def Stream.close (s : Stream) : Option Stream := some { s with isOpen := false }

structure State where
  manager : ExternalCheckManager := {}
  streams : GoMap Nat Stream := ∅
  /-- The pushes each `apply` call still has to perform. -/
  applies : GoMap Nat (List Push) := ∅
  deriving DecidableEq

namespace State

def pending (st : State) (k : Nat) : List Push := (st.applies.lookup k).getD []

def subscriberChans (ord : RangeOrder) (st : State) (agentID : String) : List Nat := ord.visit 3
    ((st.streams.entries.filter fun e => e.2.isOpen ∧ e.2.agentID = agentID).map Sigma.fst)

/-- One non-blocking send of call `k`, or the end of its current push. -/
def send (st : State) (k : Nat) : Option State :=
  match st.pending k with
  | [] => none
  | p :: rest =>
    match p.chans[p.next]? with
    | none =>
      let manager :=
        if p.chans ≠ [] ∧ p.queued = false then st.manager.mark p.agentID else st.manager
      some { st with manager, applies := AList.insert k rest st.applies }
    | some c => (st.streams.lookup c).map fun s =>
      match s.box.offer externalSubscriberBuffer p.specs with
      | some box =>
        { st with
          streams := AList.insert c { s with box } st.streams
          applies := AList.insert k
            ({ p with next := p.next + 1, queued := true } :: rest) st.applies }
      | none => { st
        with applies := AList.insert k ({ p with next := p.next + 1 } :: rest) st.applies }

/-- A change of one open stream. -/
def onStream (st : State) (c : Nat) (f : Stream → Option Stream) : Option State := do
  let s ← st.streams.lookup c
  let s' ← if s.isOpen then f s else none
  return { st with streams := AList.insert c s' st.streams }

end State

inductive Action where
  | apply (k : Nat) (ord : RangeOrder) (desired : GoMap String Specs) (unknown : List String)
  | send (k : Nat)
  | subscribe (c : Nat) (agentID : String)
  | initial (c : Nat)
  | read (c : Nat)
  | unsubscribe (c : Nat)

def step (st : State) : Action → Option State
  | .apply k ord desired unknown =>
    if st.pending k ≠ [] then none
    else
      let (manager, pushes) := applyLocked (st.subscriberChans ord) desired unknown ord st.manager
      some { st with manager, applies := AList.insert k pushes st.applies }
  | .send k => st.send k
  | .subscribe c agentID =>
    if c ∈ st.streams then none
    else some { st with streams := AList.insert c { agentID } st.streams }
  | .initial c => st.onStream c fun s => s.sendInitial (st.manager.assignment s.agentID)
  | .read c => st.onStream c Stream.receive
  | .unsubscribe c => st.onStream c Stream.close

end Kconmon.Controller.External
