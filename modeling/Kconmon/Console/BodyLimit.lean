import Kconmon.Console.Selections
import Kconmon.Lib.InPlace
import Kconmon.Lib.Tables
import Kconmon.Lib.Text
import Mathlib.Algebra.GroupWithZero.Nat
import Mathlib.Algebra.Ring.Int.Defs

/-!
# Fitting the assignment into one request

The controller refuses a body over its limit as a whole, so the reconciler leaves whole
definitions out of the assignment, the newest first, until an upper bound of the body's
size is within the limit. The bound is kept up to date by subtracting what a definition
costs, which is counted once from its first spec.
-/
namespace Kconmon.Console.Assign
open Lib

structure ExternalTarget where
  name : String
  kind : String
  address : String
  port : Nat
  deriving DecidableEq

structure ExternalCheckSpec where
  definitionID : String
  target : ExternalTarget
  checkType : String
  intervalNs : Int
  timeoutNs : Int
  params : String
  deriving DecidableEq

/-- 8 MiB. -/
def maxExternalChecksBodyBytes : Int := 8388608

def ascii (s : String) : Bytes := s.toList.map fun c => UInt8.ofNat c.toNat

/-- What the encoding of JSON does with a string and with a spec; a spec whose parameters are
not JSON has no encoding. -/
structure Json where
  quote : String → Bytes
  marshal : ExternalCheckSpec → Option Bytes

abbrev Assigned := GoMap String (List ExternalCheckSpec)

namespace Json

def array (json : Json) (specs : List ExternalCheckSpec) : Option Bytes :=
  (specs.mapM json.marshal).map fun items => ascii "[" ++ (ascii ",").intercalate items ++ ascii "]"

def field (json : Json) (e : Sigma fun _ : String => List ExternalCheckSpec) : Option Bytes :=
  (json.array e.2).map fun items => json.quote e.1 ++ ascii ":" ++ items

/-- The body of the request; the keys of a map are written in order. -/
def body (json : Json) (assignment : Assigned) : Option Bytes :=
  ((assignment.entries.insertionSort fun e e' => e.1 ≤ e'.1).mapM json.field).map fun fields =>
    ascii "\x7b\"agents\":\x7b" ++ (ascii ",").intercalate fields ++ ascii "\x7d\x7d"

/-- The bytes of an encoded spec, none for one that cannot be encoded. -/
def size (json : Json) (spec : ExternalCheckSpec) : Int := ((json.marshal spec).getD []).length

end Json

/-- The bound on the size, the bytes of each definition and those of one of its specs. -/
structure Sizes where
  size : Int := (ascii "\x7b\"agents\":\x7b\x7d\x7d").length
  cost : GoMap String Int := ∅
  specBytes : GoMap String Int := ∅

def Sizes.addSpec (json : Json) (s : Sizes) (spec : ExternalCheckSpec) : Sizes :=
  let id := spec.definitionID
  let n := (s.specBytes.lookup id).getD (json.size spec + 1)
  { size := s.size + n
    cost := AList.insert id ((s.cost.lookup id).getD 0 + n) s.cost
    specBytes := AList.insert id n s.specBytes }

def Sizes.addAgent (json : Json) (s : Sizes) (e : Sigma fun _ : String => List ExternalCheckSpec) :
    Sizes := e.2.foldl (Sizes.addSpec json)
    { s with size := s.size + ((json.quote e.1).length + (ascii ":[],").length) }

def sizes (json : Json) (assignment : Assigned) : Sizes :=
  assignment.entries.foldl (Sizes.addAgent json) {}

/-- The order in which definitions are left out. -/
def Definition.newer (a b : Definition) : Bool :=
  if a.createdAt ≠ b.createdAt then a.createdAt > b.createdAt else a.id > b.id

def newestFirst (cost : GoMap String Int) (defs : List Definition) : List Definition :=
  (defs.filter fun d => (cost.lookup d.id).isSome).insertionSort fun a b => b.newer a = false

/-- The definitions that are left out. -/
def shed (cost : GoMap String Int) : List Definition → Int → List String
  | [], _ => []
  | d :: rest, size =>
    if size ≤ maxExternalChecksBodyBytes then []
    else d.id :: shed cost rest (size - (cost.lookup d.id).getD 0)

/-- One iteration over the agents, with the series counted so far. -/
def keepSpecs (dropped : List String) (acc : Assigned × Nat)
    (e : Sigma fun _ : String => List ExternalCheckSpec) : Assigned × Nat :=
  let kept := filterInPlace (fun spec => !dropped.contains spec.definitionID) e.2
  if kept.length = 0 then (acc.1.erase e.1, acc.2)
  else (AList.insert e.1 kept acc.1, acc.2 + kept.length)

/-- The assignment that is sent and its series. -/
def fitBodyLimit (json : Json) (assignment : Assigned) (defs : List Definition) (series : Nat) :
    Assigned × Nat :=
  let s := sizes json assignment
  if s.size ≤ maxExternalChecksBodyBytes then (assignment, series)
  else
    let dropped := shed s.cost (newestFirst s.cost defs) s.size
    assignment.entries.foldl (keepSpecs dropped) (assignment, 0)

/-- The specs of one node's assignment go to the agent that stands for the node. -/
def assignTo (agentIDByNode : GoMap String String) (specs : GoMap String ExternalCheckSpec)
    (out : Assigned) (e : Sigma fun _ : String => Assignment) : Assigned :=
  match agentIDByNode.lookup e.1 with
  | none => out
  | some agentID =>
    let assigned := e.2.specs.filterMap fun s => specs.lookup s.definitionID
    if assigned.length = 0 then out else AList.insert agentID assigned out

/-- The desired state, once the definitions, their specs and the topology are read. -/
def desired (json : Json) (defs : List Definition) (specs : GoMap String ExternalCheckSpec)
    (topo : Topology) : Except AssignError (Assigned × Nat) :=
  let (agents, agentIDByNode) := agentRefs topo
  match assignAgents defs agents with
  | .error err => .error err
  | .ok (assignments, series) =>
    .ok (fitBodyLimit json (assignments.entries.foldl (assignTo agentIDByNode specs) ∅) defs series)

end Kconmon.Console.Assign
