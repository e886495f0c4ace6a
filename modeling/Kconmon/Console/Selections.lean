import Kconmon.Lib.GoMap
import Kconmon.Lib.Loops
import Mathlib.Data.List.Sort
import Mathlib.Data.String.Basic

/-!
# Which agents a definition runs on

A definition names its agents by a selection. It is resolved in three places from
one topology snapshot: the reconciler assigns continuous checks to agents, the
scheduler names the source nodes of a run, and the projection guard counts.
-/
namespace Kconmon.Console.Assign
open Lib

/-- An agent as the controller reports it. -/
structure Agent where
  id : String
  nodeName : String
  zone : String
  capabilities : List String := []
  deriving DecidableEq

structure Topology where
  agents : List Agent
  deriving DecidableEq

inductive Selection where
  | all
  | perZone
  | onePerZone
  | unknown (text : String)
  deriving DecidableEq

structure AgentRef where
  nodeName : String
  zone : String
  deriving DecidableEq

structure Definition where
  id : String
  name : String := ""
  selection : Selection
  checkType : String := ""
  destinationAddress : String := ""
  enabled : Bool
  createdAt : Int := 0
  deriving DecidableEq

structure AssignedSpec where
  definitionID : String
  name : String
  checkType : String
  destinationAddress : String
  deriving DecidableEq

structure Assignment where
  agentID : String
  specs : List AssignedSpec
  deriving DecidableEq

inductive AssignError where
  | noAgents
  | unknownSelection (selection : Selection) (definitionID : String)
  deriving DecidableEq

def protocolsPerDefinitionMirror : Nat := 1

def Definition.assignedSpec (d : Definition) : AssignedSpec :=
  ⟨d.id, d.name, d.checkType, d.destinationAddress⟩

/-! ## The reconciler -/

/-- What `agentRefs` fills: for each node the reference and the id of the agent it comes from. -/
structure AgentRefs where
  byNode : GoMap String AgentRef := ∅
  agentIDByNode : GoMap String String := ∅

def AgentRefs.take (r : AgentRefs) (a : Agent) : AgentRefs where
  byNode := AList.insert a.nodeName ⟨a.nodeName, a.zone⟩ r.byNode
  agentIDByNode := AList.insert a.nodeName a.id r.agentIDByNode

def AgentRefs.visit (r : AgentRefs) (a : Agent) : AgentRefs :=
  if a.id = "" ∨ a.nodeName = "" then r
  else
    match r.agentIDByNode.lookup a.nodeName with
    | some cur => if cur ≤ a.id then r else r.take a
    | none => r.take a

/-- The nodes of a snapshot and the ids of their agents. The names are distinct, so the order
in which the map is read does not survive the sort. -/
def agentRefs (topo : Topology) : List AgentRef × GoMap String String :=
  let refs := topo.agents.foldl AgentRefs.visit {}
  ((refs.byNode.entries.map Sigma.snd).insertionSort fun a b => a.nodeName ≤ b.nodeName,
    refs.agentIDByNode)

/-- An entry with the node name of the one before it is dropped. -/
def dropRepeats : Option AgentRef → List AgentRef → List AgentRef
  | _, [] => []
  | prev, a :: rest =>
    if prev.any (·.nodeName = a.nodeName) then dropRepeats (some a) rest
    else a :: dropRepeats (some a) rest

def normalizeAgents (agents : List AgentRef) : List AgentRef := dropRepeats none
    ((agents.filter (·.nodeName ≠ "")).insertionSort fun a b => a.nodeName ≤ b.nodeName)

/-- The zones seen so far and the nodes picked for them. -/
def pickZone (acc : GoMap String Unit × List String) (a : AgentRef) :
    GoMap String Unit × List String :=
  if (acc.1.lookup a.zone).isSome then acc
  else (AList.insert a.zone () acc.1, acc.2 ++ [a.nodeName])

def assignedAgents (selection : Selection) (sorted : List AgentRef) : List String :=
  if selection ≠ .onePerZone then sorted.map (·.nodeName)
  else (sorted.foldl pickZone (∅, [])).2

def assignOne (sorted : List AgentRef) (acc : GoMap String (List AssignedSpec) × Nat)
    (d : Definition) : GoMap String (List AssignedSpec) × Nat :=
  if d.enabled = false then acc
  else
    let targets := assignedAgents d.selection sorted
    (targets.foldl (fun m id =>
      AList.insert id ((m.lookup id).getD [] ++ [d.assignedSpec]) m) acc.1,
      acc.2 + targets.length * protocolsPerDefinitionMirror)

/-- The assignment of each node and the series it makes. -/
def assignAgents (defs : List Definition) (agents : List AgentRef) :
    Except AssignError (GoMap String Assignment × Nat) :=
  match defs.find? fun d => ¬ (d.selection = .all ∨ d.selection = .perZone ∨
      d.selection = .onePerZone) with
  | some d => .error (.unknownSelection d.selection d.id)
  | none =>
    let sorted := normalizeAgents agents
    if defs.countP (·.enabled) = 0 then .ok (∅, 0)
    else if sorted.length = 0 then .error .noAgents
    else
      let (specsByAgent, series) := defs.foldl (assignOne sorted) (∅, 0)
      .ok (specsByAgent.entries.foldl (fun out e =>
        AList.insert e.1 ⟨e.1, e.2.insertionSort fun a b => a.definitionID ≤ b.definitionID⟩ out) ∅,
        series)

/-! ## The scheduler -/

/-- The node named for the zone of `a`, once `a` has been seen. -/
def firstNode (byZone : GoMap String String) (a : Agent) : GoMap String String :=
  match byZone.lookup a.zone with
  | some cur => if a.nodeName < cur then AList.insert a.zone a.nodeName byZone else byZone
  | none => AList.insert a.zone a.nodeName byZone

/-- The source nodes of a run, none for every node. `snapshot` is what reading the topology gave. -/
def sourcesFor (selection : Selection) (snapshot : Except String Topology) :
    Except String (List String) :=
  if selection ≠ .onePerZone then .ok []
  else
    match snapshot with
    | .error err => .error ("resolve one-per-zone sources: " ++ err)
    | .ok topo =>
      let byZone := topo.agents.foldl firstNode ∅
      if byZone.entries.length = 0 then
        .error "resolve one-per-zone sources: topology reports no agents"
      else .ok ((byZone.entries.map Sigma.snd).insertionSort (· ≤ ·))

/-! ## The projection guard -/

def projectedAgents (selection : Selection) (topo : Option Topology) : Nat :=
  match topo with
  | none => 0
  | some topo =>
    if selection ≠ .onePerZone then topo.agents.length
    else
      let zones : GoMap String Unit := GoMap.ofKeys (topo.agents.map (·.zone)) ()
      zones.entries.length

end Kconmon.Console.Assign
