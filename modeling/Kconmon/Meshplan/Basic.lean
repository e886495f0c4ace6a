import Kconmon.Lib.GoMap
import Kconmon.Lib.Loops
import Kconmon.Lib.Text
import Kconmon.Model.Agent
import Mathlib.Data.List.Sort

/-!
# The sparse probe plan

Three layers write one adjacency map: a ring over the agents sorted by node
name, cross-zone chords picked by score, and one repair probe for each ordered
zone pair that is still unobserved. `build` follows the source loop by loop.
Every loop over a map takes its order from a `RangeOrder`; an index or a
capacity that the source could get wrong is a `Panic`.
-/
namespace Kconmon.Meshplan
open Lib Model

/-- The runtime failures that the planner's slice operations can hit. -/
inductive Panic where
  | indexOutOfRange
  | makeSliceCapOutOfRange
  deriving DecidableEq

def topologyModeSparse : String := "sparse"

structure SparseTopologyConfig where
  ringDegree : Int
  zoneChords : Int
  autoThreshold : Int
  deriving DecidableEq

structure TopologyConfig where
  mode : String
  sparse : SparseTopologyConfig
  deriving DecidableEq

/-- Agent id to the sorted ids of the peers it probes. The full mesh is no plan at all. -/
abbrev Plan := GoMap String (List String)

/-! ## The adjacency map -/

/-- Agent id to the set of ids it probes; a set is a list without repetitions. -/
abbrev Adj := GoMap String (List String)

def Adj.peers (adj : Adj) (id : String) : List String := (adj.lookup id).getD []

/-- `adj[src][dst] = struct{}{}` -/
def Adj.add (adj : Adj) (src dst : String) : Adj :=
  AList.insert src (List.insert dst (adj.peers src)) adj

/-! ## Scores -/

/-- One FNV-1a stream over the parts, each followed by a NUL. -/
def fnvHashParts (parts : List String) : UInt64 :=
  parts.foldl (fun h p => (p.toUTF8.toList ++ [0]).foldl
    (fun h b => (h ^^^ b.toUInt64) * 1099511628211) h) 14695981039346656037

/-- The weight of an ordered pair: an avalanche over an asymmetric mix of two hashes. -/
def pairScore (src dst : UInt64) : UInt64 :=
  let x := src ^^^ (dst * 0x9E3779B97F4A7C15)
  let x := x ^^^ (x >>> 30)
  let x := x * 0xBF58476D1CE4E5B9
  let x := x ^^^ (x >>> 27)
  let x := x * 0x94D049BB133111EB
  x ^^^ (x >>> 31)

/-- A chord candidate: its ring index and its weight. -/
structure Scored where
  idx : Nat
  score : UInt64
  deriving DecidableEq

/-- Higher weight first, ties broken by ring order. -/
def Scored.outranks (a b : Scored) : Bool :=
  if a.score ≠ b.score then a.score > b.score else a.idx < b.idx

/-! ## The ring -/

def ringLess (a b : AgentInfo) : Bool :=
  if a.nodeName ≠ b.nodeName then a.nodeName < b.nodeName else a.id < b.id

/-- Node-name order, ties broken by id. -/
def sortRing (agents : List AgentInfo) : List AgentInfo :=
  agents.insertionSort fun a b => ringLess b a = false

/-- The `d`-th successor of position `i`. -/
def successor (ring : List AgentInfo) (i d : Nat) : AgentInfo :=
  ring.getD ((i + d) % ring.length) default

/-- The ids of the first `ringDeg` successors of position `i`. -/
def successors (ring : List AgentInfo) (ringDeg : Int) (i : Nat) : List String :=
  (List.range ringDeg.toNat).map fun d => (successor ring i (d + 1)).id

def addRing (ring : List AgentInfo) (ringDeg : Int) (adj : Adj) : Adj :=
  ring.zipIdx.foldl (fun adj (a, i) =>
    (successors ring ringDeg i).foldl (fun adj dst => adj.add a.id dst) adj) adj

/-! ## Chords -/

/-- The swap loop of `pushBest` on a window read from its end: `c` moves towards
the front past every entry it outranks. -/
def bubble (c : Scored) : List Scored → List Scored
  | [] => [c]
  | p :: ps => if c.outranks p then p :: bubble c ps else c :: p :: ps

/-- Keep the `k` top-ranked candidates, best first. -/
def pushBest (best : List Scored) (c : Scored) (k : Int) : Except Panic (List Scored) :=
  if (best.length : Int) < k then .ok (bubble c best.reverse).reverse
  else match best.getLast? with
    | none => .error .indexOutOfRange
    | some last =>
      if c.outranks last then .ok (bubble c best.dropLast.reverse).reverse else .ok best

/-- The best `keep` candidates of the agent at position `i`, all in other zones. -/
def candidates (ring : List AgentInfo) (idHash : List UInt64) (src : AgentInfo) (i : Nat)
    (keep : Int) : Except Panic (List Scored) :=
  ring.zipIdx.foldlM (fun best (dst, j) =>
    if dst.zone = src.zone then .ok best
    else pushBest best ⟨j, pairScore (idHash.getD i 0) (idHash.getD j 0)⟩ keep) []

/-- Walk the candidates, skipping those already probed, until `zoneChords` are added. -/
def takeChords (ring : List AgentInfo) (src : String) (zoneChords : Int) :
    List Scored → Int → Adj → Adj
  | [], _, adj => adj
  | c :: cs, added, adj =>
    let dst := (ring.getD c.idx default).id
    if added = zoneChords then adj
    else if dst ∈ adj.peers src then takeChords ring src zoneChords cs added adj
    else takeChords ring src zoneChords cs (added + 1) (adj.add src dst)

def addChords (ring : List AgentInfo) (idHash : List UInt64) (adj : Adj)
    (ringDeg zoneChords : Int) : Except Panic Adj :=
  if zoneChords = 0 then .ok adj
  else if zoneChords + ringDeg < 0 then .error .makeSliceCapOutOfRange
  else ring.zipIdx.foldlM (fun adj (src, i) => do
    let best ← candidates ring idHash src i (zoneChords + ringDeg)
    return takeChords ring src.id zoneChords best 0 adj) adj

/-! ## Zone-pair repair -/

def keepWinner (idHash : List UInt64) (salt : UInt64) (winner : Option Scored) (i : Nat) :
    Option Scored :=
  let c : Scored := ⟨i, pairScore salt (idHash.getD i 0)⟩
  match winner with
  | none => some c
  | some w => if c.outranks w then some c else some w

/-- The winner among the given ring indices, `none` when there is none. -/
def argmaxByScore (indices : List Nat) (idHash : List UInt64) (salt : UInt64) : Option Nat :=
  (indices.foldl (keepWinner idHash salt) none).map Scored.idx

/-- The ring agent at the winning index; an empty index list has winner -1. -/
def argmaxAgent (ring : List AgentInfo) (indices : List Nat) (idHash : List UInt64)
    (salt : UInt64) : Except Panic AgentInfo :=
  match (argmaxByScore indices idHash salt).bind (ring[·]?) with
  | none => .error .indexOutOfRange
  | some a => .ok a

def indexAgent (m : GoMap String (List Nat)) (p : AgentInfo × Nat) : GoMap String (List Nat) :=
  AList.insert p.1.zone ((m.lookup p.1.zone).getD [] ++ [p.2]) m

/-- Zone to the ring positions of its agents. -/
def zoneIndex (ring : List AgentInfo) : GoMap String (List Nat) := ring.zipIdx.foldl indexAgent ∅

/-- Agent id to its zone. -/
def zoneOf (ring : List AgentInfo) : GoMap String String :=
  ring.foldl (fun m a => AList.insert a.id a.zone m) ∅

/-- The ordered zone pairs that some edge observes already. -/
def coveredPairs (ord : RangeOrder) (ring : List AgentInfo) (adj : Adj) : List (String × String) :=
  let zone (id : String) := ((zoneOf ring).lookup id).getD ""
  (ord.visit 1 adj.entries).flatMap fun e =>
    (ord.visit 2 e.2).map fun dst => (zone e.1, zone dst)

/-- The inner loop's body: one probe from the best agent of `z1` to the best of `z2`
unless the pair is observed already. -/
def repairPair (ring : List AgentInfo) (idHash : List UInt64) (covered : List (String × String))
    (z1 z2 : String) (adj : Adj) : Except Panic Adj :=
  if z1 = z2 then .ok adj
  else if (z1, z2) ∈ covered then .ok adj
  else do
    let salt := fnvHashParts ["zone-pair-repair", z1, z2]
    let src ← argmaxAgent ring (((zoneIndex ring).lookup z1).getD []) idHash salt
    let dst ← argmaxAgent ring (((zoneIndex ring).lookup z2).getD []) idHash salt
    return adj.add src.id dst.id

def repairZonePairs (ord : RangeOrder) (ring : List AgentInfo) (idHash : List UInt64)
    (adj : Adj) : Except Panic Adj :=
  if (zoneIndex ring).keys.length < 2 then .ok adj
  else
    let zones := (ord.visit 0 (zoneIndex ring).keys).insertionSort (· ≤ ·)
    let covered := coveredPairs ord ring adj
    zones.foldlM (fun adj z1 =>
      zones.foldlM (fun adj z2 => repairPair ring idHash covered z1 z2 adj) adj) adj

/-! ## The plan -/

/-- Sorted peer lists, whatever order the sets are read in. -/
def planOf (ord : RangeOrder) (adj : Adj) : Plan := (ord.visit 3 adj.entries).foldl
    (fun plan e => AList.insert e.1 ((ord.visit 4 e.2).insertionSort (· ≤ ·)) plan) ∅

/-- The degree of the ring and the number of chords, clamped to the number of peers. -/
def clamp (wanted : Int) (n : Nat) : Int := min wanted (max ((n : Int) - 1) 0)

/-- `none` is the full mesh. -/
def build (ord : RangeOrder) (agents : List AgentInfo) (cfg : TopologyConfig) :
    Except Panic (Option Plan) :=
  if equalFold cfg.mode topologyModeSparse = false then .ok none
  else
    let n := agents.length
    if cfg.sparse.autoThreshold > 0 ∧ (n : Int) < cfg.sparse.autoThreshold then .ok none
    else do
      let ring := sortRing agents
      let ringDeg := clamp cfg.sparse.ringDegree n
      let chords := clamp cfg.sparse.zoneChords n
      let adj := addRing ring ringDeg (GoMap.ofKeys (ring.map AgentInfo.id) [])
      let idHash := ring.map fun a => fnvHashParts [a.id]
      let adj ← addChords ring idHash adj ringDeg chords
      let adj ← repairZonePairs ord ring idHash adj
      return some (planOf ord adj)

end Kconmon.Meshplan
