import Kconmon.Controller.Registry

/-!
# The Time Machine fold

The console rebuilds the node and agent set from recorded topology rows. A row
is taken as decoded; details that do not decode are a case of their own. Event
times count from the zero time.
-/
namespace Kconmon.Console
open Lib Model Controller

/-- The details of a topology_changed row; no labels means the key is missing. -/
structure TopologyChangeDetails where
  reason : String := ""
  nodeName : String := ""
  agentID : String := ""
  zone : String := ""
  labels : Option Labels := none
  deriving DecidableEq

structure BaselineNode where
  name : String
  zone : String
  ready : Bool
  deriving DecidableEq

structure BaselineAgent where
  id : String
  nodeName : String
  zone : String
  labels : Option Labels
  deriving DecidableEq

structure TopologyBaselineDetails where
  nodes : List BaselineNode
  agents : List BaselineAgent
  deriving DecidableEq

inductive Details where
  | changed (d : TopologyChangeDetails)
  | baseline (b : TopologyBaselineDetails)
  | malformed
  deriving DecidableEq

structure EventRecord where
  eventTime : Nat
  details : Details
  deriving DecidableEq

structure TopologyNode where
  name : String
  zone : String
  ready : Bool
  deriving DecidableEq

structure TopologyAgent where
  id : String
  nodeName : String
  zone : String
  podIP : String
  labels : Option Labels
  deriving DecidableEq

structure TopologySnapshot where
  nodes : List TopologyNode
  agents : List TopologyAgent
  lastChange : Nat
  eventsFolded : Nat
  unfoldableEvents : Nat
  deriving DecidableEq

/-! ## The fold's state -/

structure Placement where
  nodeName : String := ""
  zone : String := ""
  labels : Option Labels := none
  deriving DecidableEq

structure NodeState where
  zone : String := ""
  ready : Bool := false
  deriving DecidableEq

structure FoldState where
  nodes : GoMap String NodeState := ∅
  agents : GoMap String Placement := ∅
  lastChange : Nat := 0
  unfoldableEvents : Nat := 0
  deriving DecidableEq

namespace FoldState

def unfoldable (s : FoldState) : FoldState :=
  { s with unfoldableEvents := s.unfoldableEvents + 1 }

/-- An event that states a zone wins; one that does not leaves the zone known so far. -/
def placeNode (d : TopologyChangeDetails) (s : FoldState) : FoldState :=
  if d.nodeName = "" then s
  else
    let prev := s.nodes.lookup d.nodeName
    let zone := if d.zone ≠ "" ∨ prev = none then d.zone else (prev.getD {}).zone
    { s with nodes := AList.insert d.nodeName ⟨zone, true⟩ s.nodes }

/-- The same rule for the agent's zone and its labels. -/
def placeAgent (d : TopologyChangeDetails) (s : FoldState) : FoldState :=
  if d.agentID = "" then s
  else
    let prev := (s.agents.lookup d.agentID).getD {}
    let zone := if d.zone = "" then prev.zone else d.zone
    let labels := if d.labels = none then prev.labels else d.labels
    { s with agents := AList.insert d.agentID ⟨d.nodeName, zone, labels⟩ s.agents }

/-- A node goes only with its last agent. -/
def remove (d : TopologyChangeDetails) (s : FoldState) : FoldState :=
  let agents := s.agents.erase d.agentID
  let nodeStillPopulated := d.agentID ≠ "" ∧ ∃ e ∈ agents.entries, e.2.nodeName = d.nodeName
  if nodeStillPopulated then { s with agents }
  else { s with agents, nodes := s.nodes.erase d.nodeName }

theorem agents_remove (s : FoldState) (d : TopologyChangeDetails) :
    (s.remove d).agents = s.agents.erase d.agentID := by
  unfold remove
  dsimp only
  split <;> rfl

def change (d : TopologyChangeDetails) (s : FoldState) : FoldState :=
  if d.nodeName = "" ∧ d.agentID = "" then s.unfoldable
  else if d.reason = Reason.agentRegistered.text ∨ d.reason = Reason.zoneUpdated.text then
    placeAgent d (placeNode d s)
  else if d.reason = Reason.agentDeregistered.text ∨ d.reason = Reason.agentEvicted.text then
    remove d s
  else s.unfoldable

/-- A baseline replaces what the fold held. -/
def rebase (b : TopologyBaselineDetails) (s : FoldState) : FoldState :=
  { s with
    nodes := (b.nodes.filter fun n => n.name ≠ "").foldl
      (fun m n => AList.insert n.name ⟨n.zone, n.ready⟩ m) ∅
    agents := (b.agents.filter fun a => a.id ≠ "").foldl
      (fun m a => AList.insert a.id ⟨a.nodeName, a.zone, a.labels⟩ m) ∅ }

def step (s : FoldState) (rec : EventRecord) : FoldState :=
  let s := { s with lastChange := max s.lastChange rec.eventTime }
  match rec.details with
  | .baseline b => s.rebase b
  | .changed d => s.change d
  | .malformed => s.unfoldable

/-- The nodes that host an agent labelled external. -/
def bareHosts (s : FoldState) : List String :=
  (s.agents.entries.filter fun e => (e.2.labels.getD []).external).map fun e => e.2.nodeName

def snapshot (s : FoldState) (eventsFolded : Nat) : TopologySnapshot where
  nodes := ((s.nodes.entries.filter fun e => e.1 ∉ s.bareHosts).map fun e =>
    (⟨e.1, e.2.zone, e.2.ready⟩ : TopologyNode)).insertionSort fun a b => ¬ b.name < a.name
  agents := (s.agents.entries.map fun e =>
    (⟨e.1, e.2.nodeName, e.2.zone, "", e.2.labels⟩ : TopologyAgent)).insertionSort
      fun a b => ¬ b.id < a.id
  lastChange := s.lastChange
  eventsFolded
  unfoldableEvents := s.unfoldableEvents

end FoldState

def foldTopology (recs : List EventRecord) : TopologySnapshot :=
  (recs.foldl FoldState.step {}).snapshot recs.length

/-- The row the ingester writes for one event: an empty labels map is omitted. -/
def rowOf (eventTime : Nat) (e : TopologyChanged) : EventRecord where
  eventTime
  details := .changed
    ⟨e.reason.text, e.nodeName, e.agentId, e.zone, if e.labels = [] then none else some e.labels⟩

end Kconmon.Console
