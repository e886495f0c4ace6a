import Kconmon.Lib.GoMap
import Kconmon.Lib.HeadOfLine
import Kconmon.Lib.Loops

/-!
# On-demand runs

A run request is expanded into a list of pairs (`plan`), given a ceiling
(`runDeadline`) and dispatched round-robin over its sources (`dispatchRound`),
at most eight pairs at a time and at most two from one source. Times are
nanoseconds.
-/
namespace Kconmon.Console.Checks
open Lib

def maxPairs : Nat := 400
def maxConcurrency : Nat := 8
def maxPerSourceConcurrency : Nat := 2

def second : Nat := 1000000000

/-! ## Per-pair timeouts -/

def mtrMinPerPairTimeout : Int := 90 * second
def udpMinPerPairTimeout : Int := 5 * second
def pmtuMinPerPairTimeout : Int := 15 * second
def minPerPairTimeout : Int := 1 * second
def maxPerPairTimeout : Int := 120 * second

def clampTimeout (d : Int) : Int :=
  if d < minPerPairTimeout then minPerPairTimeout
  else if d > maxPerPairTimeout then maxPerPairTimeout
  else d

def clampTimeoutFor (checkType : String) (d : Int) : Int :=
  let out := clampTimeout d
  if checkType = "mtr" ∧ out < mtrMinPerPairTimeout then mtrMinPerPairTimeout
  else if checkType = "udp" ∧ out < udpMinPerPairTimeout then udpMinPerPairTimeout
  else if checkType = "pmtu" ∧ out < pmtuMinPerPairTimeout then pmtuMinPerPairTimeout
  else out

/-! ## Destinations -/

def destKindNode : String := "node"
def destKindTarget : String := "target"
def destKindAdhoc : String := "adhoc"

structure Destination where
  kind : String
  node : String := ""
  name : String := ""
  address : String := ""
  deriving DecidableEq

def nodeDestination (node : String) : Destination := { kind := destKindNode, node }

def Destination.isNode (d : Destination) : Bool := d.kind = "" || d.kind = destKindNode

/-- Why a destination cannot be dispatched. -/
inductive InvalidDestination where
  | needsNodeName
  | needsAddress (kind : String)
  | unknownKind (kind : String)
  deriving DecidableEq

def Destination.validate (d : Destination) : Except InvalidDestination Unit :=
  if d.isNode then
    if d.node = "" then .error .needsNodeName else .ok ()
  else if d.kind = destKindTarget ∨ d.kind = destKindAdhoc then
    if d.address = "" then .error (.needsAddress d.kind) else .ok ()
  else .error (.unknownKind d.kind)

structure Pair where
  source : String
  destination : Destination
  deriving DecidableEq

/-- A probe of a node by itself, which no run dispatches. -/
def Pair.isSelf (p : Pair) : Bool := p.destination.isNode && p.source = p.destination.node

/-! ## Planning -/

def validCheckTypes : List String := ["tcp", "udp", "icmp", "pmtu", "dns", "http", "mtr"]

structure Spec where
  sources : List String := []
  destinations : List String := []
  type : String
  typedDestinations : List Destination := []
  timeout : Int := 0
  deriving DecidableEq

inductive PlanError where
  | unknownType (type : String)
  | noNodes
  | tooManyPairs (computed : Nat)
  | noPairs
  | invalidDestination (index : Nat) (reason : InvalidDestination)
  deriving DecidableEq

/-- The typed half of the destinations, each refused under its own index. -/
def checkTyped : List (Destination × Nat) → Except PlanError Unit
  | [] => .ok ()
  | (d, i) :: rest =>
    match d.validate with
    | .error reason => .error (.invalidDestination i reason)
    | .ok () => checkTyped rest

def planDestinations (nodeNames : List String) (typed : List Destination) (nodes : List String) :
    Except PlanError (List Destination) :=
  if nodeNames = [] ∧ typed = [] then
    if nodes = [] then .error .noNodes else .ok (nodes.map nodeDestination)
  else
    match checkTyped typed.zipIdx with
    | .error e => .error e
    | .ok () => .ok (nodeNames.map nodeDestination ++ typed)

/-- The accumulators of the planning loop. -/
structure Planned where
  seen : GoMap Pair Unit := ∅
  pairs : List Pair := []

/-- One iteration of the inner planning loop. -/
def planPair (src : String) (acc : Planned) (dst : Destination) : Except PlanError Planned :=
  let p : Pair := { source := src, destination := dst }
  if p.isSelf then .ok acc
  else if (acc.seen.lookup p).isSome then .ok acc
  else
    let pairs := acc.pairs ++ [p]
    if pairs.length > maxPairs then .error (.tooManyPairs pairs.length)
    else .ok { seen := AList.insert p () acc.seen, pairs }

def planSources (spec : Spec) (nodes : List String) : List String :=
  if spec.sources = [] then nodes else spec.sources

def plan (spec : Spec) (nodes : List String) : Except PlanError (List Pair) :=
  if spec.type ∉ validCheckTypes then .error (.unknownType spec.type)
  else if spec.sources = [] ∧ nodes = [] then .error .noNodes
  else
    let sources := planSources spec nodes
    match planDestinations spec.destinations spec.typedDestinations nodes with
    | .error e => .error e
    | .ok destinations =>
      let rawProduct := sources.length * destinations.length
      if rawProduct > maxPairs then .error (.tooManyPairs rawProduct)
      else
        match sources.foldlM (fun acc src => destinations.foldlM (planPair src) acc) {} with
        | .error e => .error e
        | .ok planned => if planned.pairs = [] then .error .noPairs else .ok planned.pairs

/-! ## The ceiling -/

def ceilDiv (a b : Nat) : Nat :=
  if b = 0 then a else
    let n := (a + b - 1) / b
    if n < 1 then 1 else n

def countPerSource (pairs : List Pair) : GoMap String Nat :=
  pairs.foldl (fun m p => AList.insert p.source ((m.lookup p.source).getD 0 + 1) m) ∅

/-- The largest count; the order in which the map is visited does not matter to it. -/
def busiest (pairs : List Pair) : Nat :=
  (countPerSource pairs).entries.foldl (fun most e => if e.2 > most then e.2 else most) 0

/-- How many times the slower of the two gates has to drain. -/
def floorBatches (pairs : List Pair) : Nat :=
  let batches := ceilDiv pairs.length maxConcurrency
  let b := ceilDiv (busiest pairs) maxPerSourceConcurrency
  if b > batches then b else batches

def roundFloor (pairs : List Pair) (perPairTimeout : Nat) : Nat :=
  floorBatches pairs * perPairTimeout

def runDeadlineSlack : Nat := 30 * second

def runDeadline (pairs : List Pair) (perPairTimeout duration : Nat) : Nat :=
  let oneRound := roundFloor pairs perPairTimeout + runDeadlineSlack
  if duration > 0 then duration + oneRound else oneRound

/-! ## Dispatching -/

/-- The indices of each source's pairs, and the sources as they first appear. -/
structure BySource where
  indices : GoMap String (List Nat) := ∅
  order : List String := []

def BySource.add (acc : BySource) (p : Pair × Nat) : BySource :=
  let src := p.1.source
  { order := if (acc.indices.lookup src).isSome then acc.order else acc.order ++ [src]
    indices := AList.insert src ((acc.indices.lookup src).getD [] ++ [p.2]) acc.indices }

def bySource (pairs : List Pair) : BySource := pairs.zipIdx.foldl BySource.add {}

/-- One index of each source that has more than `round` of them. -/
def BySource.round (b : BySource) (round : Nat) : List Nat :=
  b.order.filterMap fun src => ((b.indices.lookup src).getD [])[round]?

/-- The loop over the rounds. It ends once every index is out, which takes at most one
round for each index. -/
def BySource.interleave (b : BySource) (total : Nat) : (fuel round : Nat) → List Nat → List Nat
  | 0, _, out => out
  | fuel + 1, round, out =>
    if out.length < total then b.interleave total fuel (round + 1) (out ++ b.round round) else out

def interleaveBySource (pairs : List Pair) : List Nat :=
  (bySource pairs).interleave pairs.length pairs.length 0 []

def sourceAt (pairs : List Pair) (i : Nat) : String := (pairs[i]?.map Pair.source).getD ""

/-- One pass over the pairs when the probe of pair `i` takes `took i` and nothing else
delays: each pair's index with the instant at which it is finished. -/
def dispatchRound (pairs : List Pair) (took : Nat → Nat) : List (Nat × Nat) :=
  let order := interleaveBySource pairs
  let jobs := order.map fun i => (sourceAt pairs i, took i)
  order.zip ((HeadOfLine.run maxConcurrency maxPerSourceConcurrency jobs).taken.map Prod.snd)

/-! ## What a plan holds -/

/-- The pairs of the loop so far, and the set that keeps them distinct. -/
structure Planned.Sound (acc : Planned) (holds : Pair → Prop) : Prop where
  seen : ∀ p, (acc.seen.lookup p).isSome ↔ p ∈ acc.pairs
  distinct : acc.pairs.Nodup
  mem : ∀ p, p ∈ acc.pairs ↔ p.isSelf = false ∧ holds p

variable {acc acc' : Planned} {holds : Pair → Prop} {src : String}

theorem Planned.Sound.planPair (sound : acc.Sound holds) {dst : Destination}
    (done : planPair src acc dst = .ok acc') : acc'.Sound fun p => holds p ∨ p = ⟨src, dst⟩ := by
  unfold Checks.planPair at done
  dsimp only at done
  split at done
  · rename_i self
    cases done
    refine ⟨sound.seen, sound.distinct, fun p => ?_⟩
    rw [sound.mem]
    by_cases same : p = ⟨src, dst⟩
    · simp [same, self]
    · simp [same]
  · rename_i other
    split at done
    · rename_i dup
      cases done
      have known := (sound.mem _).mp ((sound.seen _).mp dup)
      refine ⟨sound.seen, sound.distinct, fun p => ?_⟩
      rw [sound.mem]
      by_cases same : p = ⟨src, dst⟩
      · simp [same, known]
      · simp [same]
    · rename_i fresh
      split at done <;> cases done
      have unseen : (⟨src, dst⟩ : Pair) ∉ acc.pairs := fun h => fresh ((sound.seen _).mpr h)
      refine ⟨fun p => ?_, ?_, fun p => ?_⟩
      · rw [GoMap.lookup_insert_if, List.mem_append, ← sound.seen]
        by_cases same : p = ⟨src, dst⟩ <;> simp [same]
      · exact List.nodup_append'.mpr ⟨sound.distinct, by simp, by simpa using unseen⟩
      · rw [List.mem_append, sound.mem, List.mem_singleton]
        by_cases same : p = ⟨src, dst⟩
        · simpa [same] using other
        · simp [same]

theorem Planned.Sound.congr {holds' : Pair → Prop} (sound : acc.Sound holds)
    (same : ∀ p, holds p ↔ holds' p) : acc.Sound holds' :=
  ⟨sound.seen, sound.distinct, fun p => by rw [sound.mem, same]⟩

variable {destinations : List Destination}

theorem Planned.Sound.inner (sound : acc.Sound holds)
    (done : destinations.foldlM (Checks.planPair src) acc = .ok acc') :
    acc'.Sound fun p => holds p ∨ p.source = src ∧ p.destination ∈ destinations := by
  induction destinations generalizing acc holds with
  | nil =>
    cases done
    exact sound.congr fun p => by simp
  | cons dst destinations ih =>
    obtain ⟨mid, first, rest⟩ := foldlM_cons_ok done
    refine (ih (sound.planPair first) rest).congr fun p => ?_
    obtain ⟨source, destination⟩ := p
    simp only [Pair.mk.injEq, List.mem_cons]
    tauto

theorem Planned.Sound.outer {sources : List String} (sound : acc.Sound holds)
    (done : sources.foldlM (fun acc src => destinations.foldlM (Checks.planPair src) acc) acc =
      .ok acc') :
    acc'.Sound fun p => holds p ∨ p.source ∈ sources ∧ p.destination ∈ destinations := by
  induction sources generalizing acc holds with
  | nil =>
    cases done
    exact sound.congr fun p => by simp
  | cons src sources ih =>
    obtain ⟨mid, first, rest⟩ := foldlM_cons_ok done
    refine (ih (sound.inner first) rest).congr fun p => ?_
    simp only [List.mem_cons]
    tauto

variable {nodes : List String} {spec : Spec} {pairs : List Pair}

/-- A plan is what the two loops collect. -/
theorem plan_loop (planned : plan spec nodes = .ok pairs) : ∃ destinations acc,
      planDestinations spec.destinations spec.typedDestinations nodes = .ok destinations ∧
      (planSources spec nodes).foldlM
        (fun acc src => destinations.foldlM (Checks.planPair src) acc) {} = .ok acc ∧
      acc.pairs = pairs ∧ pairs ≠ [] := by
  unfold plan at planned
  split at planned
  · cases planned
  · split at planned
    · cases planned
    · dsimp only at planned
      split at planned
      · cases planned
      · rename_i destinations resolved
        split at planned
        · cases planned
        · split at planned
          · cases planned
          · rename_i acc looped
            split at planned <;> cases planned
            rename_i some_pair
            exact ⟨destinations, acc, resolved, looped, rfl, some_pair⟩

/-- A plan is the product of its two sides without self-pairs, each pair once. -/
theorem plan_ok (planned : plan spec nodes = .ok pairs) : ∃ destinations,
      planDestinations spec.destinations spec.typedDestinations nodes = .ok destinations ∧
      pairs ≠ [] ∧ pairs.Nodup ∧ ∀ p, p ∈ pairs ↔
        p.isSelf = false ∧ p.source ∈ planSources spec nodes ∧ p.destination ∈ destinations := by
  obtain ⟨destinations, acc, resolved, looped, rfl, some_pair⟩ := plan_loop planned
  have start : ({} : Planned).Sound fun _ => False := ⟨by simp, by simp, by simp⟩
  have sound := start.outer looped
  exact ⟨destinations, resolved, some_pair, sound.distinct, fun p => by simpa using sound.mem p⟩

theorem length_planPair_le {dst : Destination} (few : acc.pairs.length ≤ maxPairs)
    (done : planPair src acc dst = .ok acc') : acc'.pairs.length ≤ maxPairs := by
  unfold planPair at done
  dsimp only at done
  split_ifs at done with self seen many
  · cases done
    exact few
  · cases done
    exact few
  · cases done
    exact Nat.le_of_not_lt many

theorem length_plan_le (planned : plan spec nodes = .ok pairs) : pairs.length ≤ maxPairs := by
  obtain ⟨destinations, acc, -, looped, rfl, -⟩ := plan_loop planned
  refine foldlM_invariant (I := fun acc : Planned => acc.pairs.length ≤ maxPairs)
    (Nat.zero_le _) (fun acc src _ acc' few done => ?_) looped
  exact foldlM_invariant (I := fun acc : Planned => acc.pairs.length ≤ maxPairs) few
    (fun _ _ _ _ few done => length_planPair_le few done) done

/-- A destination that names a node is either one of the plain names or a typed one. -/
theorem planDestinations_node {nodeNames : List String} {typed : List Destination}
    (resolved : planDestinations nodeNames typed nodes = .ok destinations)
    (external : ∀ d ∈ typed, d.isNode = false) {d : Destination} (mem : d ∈ destinations)
    (node : d.isNode = true) : d = nodeDestination d.node := by
  have named : ∀ {names : List String}, d ∈ names.map nodeDestination →
    d = nodeDestination d.node := by
    intro names h
    obtain ⟨n, -, rfl⟩ := List.mem_map.mp h
    rfl
  unfold planDestinations at resolved
  split at resolved
  · split at resolved <;> cases resolved
    exact named mem
  · split at resolved <;> cases resolved
    rcases List.mem_append.mp mem with h | h
    · exact named h
    · simp [external d h] at node

end Kconmon.Console.Checks
