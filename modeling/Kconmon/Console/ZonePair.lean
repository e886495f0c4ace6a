import Kconmon.Console.Checks
import Kconmon.Console.Selections
import Kconmon.Lib.Chunks

/-!
# The zone-pair preset

An investigation of a zone pair probes every node of one zone from every node of another. The
sources are cut into chunks so that no run exceeds the number of pairs that a plan may have; all
chunks are planned before the first run is started. What the controller answers and what the store
does with a new run are inputs.
-/
namespace Kconmon.Console.ZonePair
open Lib Checks
open Assign (Agent Topology)

def presetMaxRuns : Nat := 8

def podPlane : String := "pod"

structure ZonePairSpec where
  sourceZone : String
  destinationZone : String
  type : String
  plane : String := ""
  timeout : Int := 0
  deriving DecidableEq

structure ZonePairRun where
  id : String
  pairTotal : Nat
  deriving DecidableEq

/-- A run request with its plane. -/
structure RunSpec extends Spec where
  plane : String := ""
  deriving DecidableEq

inductive StartError where
  | invalidPlane
  | topology
  | plan (err : PlanError)
  | createRun
  deriving DecidableEq

inductive ZonePairError where
  | topology
  | unknownZone (zone : String)
  | noNodes
  | destinationsTooMany (destinations : Nat)
  | runsTooMany (sources destinations runs : Nat)
  | plan (err : PlanError)
  | start (started total : Nat) (err : StartError)
  deriving DecidableEq

/-! ## Zones -/

structure ZoneNodes where
  seen : GoMap String Unit := ∅
  zones : GoMap String (List String) := ∅

/-- A node belongs to the zone of the first of its agents. -/
def ZoneNodes.visit (acc : ZoneNodes) (a : Agent) : ZoneNodes :=
  if a.nodeName = "" then acc
  else if (acc.seen.lookup a.nodeName).isSome then acc
  else
    { seen := AList.insert a.nodeName () acc.seen
      zones := AList.insert a.zone ((acc.zones.lookup a.zone).getD [] ++ [a.nodeName]) acc.zones }

def zoneNodes (topo : Topology) : GoMap String (List String) :=
  GoMap.mapValues (fun nodes => nodes.insertionSort (· ≤ ·))
    (topo.agents.foldl ZoneNodes.visit {}).zones

/-! ## Chunks -/

def chunkZonePairSources (sources destinations : List String) :
    Except ZonePairError (List (List String)) :=
  if sources.length = 0 ∨ destinations.length = 0 then .error .noNodes
  else if destinations.length > maxPairs then .error (.destinationsTooMany destinations.length)
  else
    let perChunk := maxPairs / destinations.length
    let n := ceilDiv sources.length perChunk
    if n > presetMaxRuns then .error (.runsTooMany sources.length destinations.length n)
    else .ok (chunks sources perChunk)

/-! ## Runs -/

structure StartedRun where
  id : String
  spec : RunSpec
  pairs : List Pair
  deriving DecidableEq

/-- The runner: what the controller answers, what the store will say to new runs (nothing stands
for an error), and the runs that were started. -/
structure Runner where
  topology : Option Topology
  creations : List (Option String)
  running : List StartedRun := []

def validatePlane (plane : String) : Bool := plane = "" || plane = podPlane

/-- The node names of the topology, each once. -/
def nodeNames (topo : Topology) : List String :=
  ((topo.agents.map Agent.nodeName).filter (· ≠ "")).dedup.insertionSort (· ≤ ·)

/-- The topology is read only when a side is left open. -/
def resolveNodes (topology : Option Topology) (spec : Spec) : Option (List String) :=
  if spec.sources ≠ [] ∧ (spec.destinations ≠ [] ∨ spec.typedDestinations ≠ []) then some []
  else topology.map nodeNames

/-- A run without a duration; a run that the store refuses is not started. -/
def Runner.start (r : Runner) (spec : RunSpec) : Runner × Except StartError String :=
  if validatePlane spec.plane = false then (r, .error .invalidPlane)
  else
    match resolveNodes r.topology spec.toSpec with
    | none => (r, .error .topology)
    | some nodes =>
      match plan spec.toSpec nodes with
      | .error err => (r, .error (.plan err))
      | .ok pairs =>
        let spec := if spec.plane = "" then { spec with plane := podPlane } else spec
        match r.creations with
        | some id :: creations =>
          ({ r with creations, running := r.running ++ [⟨id, spec, pairs⟩] }, .ok id)
        | none :: creations => ({ r with creations }, .error .createRun)
        | [] => (r, .error .createRun)

def chunkSpec (spec : ZonePairSpec) (destinations group : List String) : RunSpec where
  sources := group
  destinations := destinations
  type := spec.type
  plane := spec.plane
  timeout := spec.timeout

/-- What a call returns, and the runner after it. -/
structure Outcome where
  runner : Runner
  started : List ZonePairRun
  error : Option ZonePairError

/-- The loop over the planned chunks; it ends with the first run that is not started. -/
def Runner.startAll (total : Nat) (r : Runner) (started : List ZonePairRun) :
    List (RunSpec × Nat) → Outcome
  | [] => ⟨r, started, none⟩
  | (spec, pairTotal) :: later =>
    match r.start spec with
    | (r, .error err) => ⟨r, started, some (.start started.length total err)⟩
    | (r, .ok id) => r.startAll total (started ++ [⟨id, pairTotal⟩]) later

/-- Each chunk with the number of its pairs. -/
def planChunks (spec : ZonePairSpec) (destinations : List String) (groups : List (List String)) :
    Except PlanError (List (RunSpec × Nat)) :=
  groups.mapM fun group => do
    let pairs ← plan (chunkSpec spec destinations group).toSpec []
    return (chunkSpec spec destinations group, pairs.length)

def Runner.startZonePair (r : Runner) (spec : ZonePairSpec) : Outcome :=
  match r.topology with
  | none => ⟨r, [], some .topology⟩
  | some topo =>
    let zones := zoneNodes topo
    let sources := (zones.lookup spec.sourceZone).getD []
    let destinations := (zones.lookup spec.destinationZone).getD []
    if sources.length = 0 then ⟨r, [], some (.unknownZone spec.sourceZone)⟩
    else if destinations.length = 0 then ⟨r, [], some (.unknownZone spec.destinationZone)⟩
    else
      match chunkZonePairSources sources destinations with
      | .error err => ⟨r, [], some err⟩
      | .ok groups =>
        match planChunks spec destinations groups with
        | .error err => ⟨r, [], some (.plan err)⟩
        | .ok planned => r.startAll planned.length [] planned

end Kconmon.Console.ZonePair
