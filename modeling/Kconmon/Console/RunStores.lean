import Kconmon.Console.RunExecution

/-!
# The two run stores

The runner writes its runs, results and path snapshots through one contract that
is implemented twice: by SQL statements, and by hand over maps for a console
without a database. Both are modelled call by call. Instants count from the zero
time, in the unit of the store that keeps them: the memory counts nanoseconds, a
timestamptz whole microseconds. Where the two are compared, both get microseconds.
-/
namespace Kconmon.Console.RunStore
open Lib
open Checks (RunStatus storable runResultsCap)

def memoryRingSize : Nat := 50
def memorySnapshotRingSize : Nat := 500
def maxPathHops : Nat := 64

/-- The errors that a caller can tell apart. -/
inductive ErrKind where
  | alreadyExists
  | notFound
  | wrongState
  | other
  deriving DecidableEq

inductive Reply where
  | done
  | recorded (isNew : Bool)
  | count (n : Nat)
  | failed (kind : ErrKind)
  deriving DecidableEq

/-! ## Rows -/

/-- A run, with the duration that its spec declares. -/
structure Run where
  id : String
  createdAt : Int
  startedAt : Option Int := none
  finishedAt : Option Int := none
  status : RunStatus := .pending
  duration : Int
  initiatorKind : String
  initiatorID : String
  pairTotal : Int
  pairOK : Int := 0
  pairFailed : Int := 0
  deriving DecidableEq

def Run.midFlight (r : Run) : Bool := r.status = .pending || r.status = .running

def Run.startedBy (initiatorKind initiatorID : String) (r : Run) : Bool :=
  r.initiatorKind = initiatorKind && r.initiatorID = initiatorID

structure ResultKey where
  source : String
  destination : String
  sampleSeq : Int
  deriving DecidableEq

structure RunResult where
  key : ResultKey
  success : Bool
  durationNs : Int
  error : String
  recordedAt : Int
  deriving DecidableEq

structure RunResultInput where
  runID : String
  sourceNode : String
  destinationNode : String
  success : Bool
  durationNs : Int := 0
  error : String := ""
  sampleSeq : Int := 0
  deriving DecidableEq

def RunResultInput.key (i : RunResultInput) : ResultKey :=
  ⟨i.sourceNode, i.destinationNode, i.sampleSeq⟩

def RunResultInput.row (now : Int) (i : RunResultInput) : RunResult :=
  ⟨i.key, i.success, i.durationNs, i.error, now⟩

structure PathHop where
  number : Int
  ip : String
  deriving DecidableEq

structure PathSnapshotInput where
  sourceNode : String
  destination : String
  pathHash : String := ""
  hops : List PathHop
  seenAt : Int
  runID : String := ""
  deriving DecidableEq

structure SnapshotKey where
  sourceNode : String
  destination : String
  pathHash : String
  deriving DecidableEq

def PathSnapshotInput.key (i : PathSnapshotInput) : SnapshotKey :=
  ⟨i.sourceNode, i.destination, i.pathHash⟩

structure PathSnapshot where
  hops : List PathHop
  firstSeen : Int
  lastSeen : Int
  traceCount : Nat
  deriving DecidableEq

def PathSnapshotInput.first (i : PathSnapshotInput) : PathSnapshot :=
  ⟨i.hops, i.seenAt, i.seenAt, 1⟩

/-- What the stores use and do not define: the hash of a path, that of a silent one, and the
canonical text of a UUID. -/
structure Env where
  hashPath : List PathHop → String
  hashSilentPath : String
  canonicalUUID : String → Option String

/-- The checks that both stores make first; an empty hash is filled in. -/
def PathSnapshotInput.validate (env : Env) (i : PathSnapshotInput) : Option PathSnapshotInput :=
  if i.sourceNode = "" ∨ i.destination = "" ∨ i.hops = [] ∨ i.hops.length > maxPathHops ∨
      (∃ hop ∈ i.hops, hop.ip = "") ∨ i.seenAt = 0 then none
  else
    let want := if env.hashPath i.hops = "" then env.hashSilentPath else env.hashPath i.hops
    if i.pathHash ≠ "" ∧ i.pathHash ≠ want then none
    else if i.runID ≠ "" ∧ env.canonicalUUID i.runID = none then none
    else some { i with pathHash := want }

/-- What a run may take on top of its own duration before it counts as abandoned. -/
structure ReapBudget where
  perSourceConcurrency : Nat
  perPairTimeout : Int
  slack : Int
  deriving DecidableEq

/-- The batches that so many slots need for the pairs of a run, at least one pair. -/
def batches (pairTotal : Int) (slots : Nat) : Nat := ((max pairTotal 1).toNat + slots - 1) / slots

inductive Call where
  | createRun (id : String) (duration : Int) (initiatorKind initiatorID : String)
      (pairTotal : Int) (deadlineAt : Int)
  | markRunStarted (id : String)
  | finishRun (id : String) (status : RunStatus) (pairOK pairFailed : Int)
  | abandonRun (id : String) (status : RunStatus)
  | upsertRunResult (i : RunResultInput)
  | upsertPathSnapshot (i : PathSnapshotInput)
  | reapStuckRuns (budget : ReapBudget) (limit : Int)
  | activeRunsByInitiator (initiatorKind initiatorID : String)
  deriving DecidableEq

/-! ## In memory -/

/-- A run with the newest of its results; `index` finds a retained result by its key. -/
structure Entry where
  run : Run
  results : List RunResult := []
  index : GoMap ResultKey Nat := ∅
  evicted : Nat := 0

/-- A sample that is there already keeps its place; past the cap the oldest one goes. -/
def Entry.upsert (now : Int) (i : RunResultInput) (e : Entry) : Entry :=
  match e.index.lookup i.key with
  | some pos =>
    { e with results := e.results.modify (pos - e.evicted) fun _ => i.row now }
  | none =>
    let index := AList.insert i.key (e.evicted + e.results.length) e.index
    let results := e.results ++ [i.row now]
    if results.length > runResultsCap then
      { e with
        results := results.tail
        index := match results.head? with
          | some old => index.erase old.key
          | none => index
        evicted := e.evicted + 1 }
    else { e with results, index }

structure MemoryStore where
  order : List String := []
  runs : GoMap String Entry := ∅
  snapOrder : List SnapshotKey := []
  snaps : GoMap SnapshotKey PathSnapshot := ∅

namespace MemoryStore

def setRun (m : MemoryStore) (id : String) (e : Entry) (run : Run) : MemoryStore :=
  { m with runs := AList.insert id { e with run } m.runs }

/-- The deadline is not kept. -/
def createRun (m : MemoryStore) (now : Int) (id : String) (duration : Int)
    (initiatorKind initiatorID : String) (pairTotal : Int) : MemoryStore × Reply :=
  if (m.runs.lookup id).isSome then (m, .failed .alreadyExists)
  else
    let run : Run := { id, createdAt := now, duration, initiatorKind, initiatorID, pairTotal }
    let runs := AList.insert id { run } m.runs
    let order := m.order ++ [id]
    if order.length > memoryRingSize then
      ({ m with order := order.tail, runs := runs.erase (order.headD "") }, .done)
    else ({ m with order, runs }, .done)

def markRunStarted (m : MemoryStore) (now : Int) (id : String) : MemoryStore × Reply :=
  match m.runs.lookup id with
  | none => (m, .failed .notFound)
  | some e =>
    if e.run.status ≠ .pending then (m, .failed .wrongState)
    else (m.setRun id e { e.run with status := .running, startedAt := some now }, .done)

def finishRun (m : MemoryStore) (now : Int) (id : String) (status : RunStatus)
    (pairOK pairFailed : Int) : MemoryStore × Reply :=
  match m.runs.lookup id with
  | none => (m, .failed .notFound)
  | some e =>
    if e.run.status ≠ .running then (m, .failed .wrongState)
    else (m.setRun id e { e.run with status, finishedAt := some now, pairOK, pairFailed }, .done)

/-- A run that is terminal already is left alone without an error. -/
def abandonRun (m : MemoryStore) (now : Int) (id : String) (status : RunStatus) :
    MemoryStore × Reply :=
  match m.runs.lookup id with
  | none => (m, .failed .notFound)
  | some e =>
    if e.run.midFlight = false then (m, .done)
    else (m.setRun id e
      { e.run with status, finishedAt := some now, pairOK := 0, pairFailed := 0 }, .done)

def reapAllowance (run : Run) (budget : ReapBudget) : Int :=
  run.duration + batches run.pairTotal (max budget.perSourceConcurrency 1) * budget.perPairTimeout +
    budget.slack

/-- A run that the loop would cancel. -/
def overdue (now : Int) (budget : ReapBudget) (run : Run) : Bool :=
  run.midFlight && ¬ now < run.createdAt + reapAllowance run budget

/-- One iteration of the loop: past the limit it has been left. The counters stay as they are. -/
def reapNext (now : Int) (budget : ReapBudget) (limit : Int) (acc : MemoryStore × Nat)
    (id : String) : MemoryStore × Nat :=
  if (acc.2 : Int) ≥ limit then acc
  else
    match acc.1.runs.lookup id with
    | none => acc
    | some e =>
      if overdue now budget e.run then
        (acc.1.setRun id e { e.run with status := .cancelled, finishedAt := some now }, acc.2 + 1)
      else acc

def reapStuckRuns (m : MemoryStore) (now : Int) (budget : ReapBudget) (limit : Int) :
    MemoryStore × Reply :=
  let done := m.order.foldl (reapNext now budget limit) (m, 0)
  (done.1, .count done.2)

def upsertRunResult (m : MemoryStore) (now : Int) (i : RunResultInput) : MemoryStore × Reply :=
  match m.runs.lookup i.runID with
  | none => (m, .failed .notFound)
  | some e => ({ m with runs := AList.insert i.runID (e.upsert now i) m.runs }, .done)

/-- A trace over a known path moves `lastSeen` to its own time. -/
def upsertPathSnapshot (env : Env) (m : MemoryStore) (i : PathSnapshotInput) :
    MemoryStore × Reply :=
  match i.validate env with
  | none => (m, .failed .other)
  | some i =>
    match m.snaps.lookup i.key with
    | some snap =>
      let snap := { snap with lastSeen := i.seenAt, traceCount := snap.traceCount + 1 }
      ({ m with snaps := AList.insert i.key snap m.snaps }, .recorded false)
    | none =>
      let snaps := AList.insert i.key i.first m.snaps
      let snapOrder := m.snapOrder ++ [i.key]
      if snapOrder.length > memorySnapshotRingSize then
        ({ m with
          snapOrder := snapOrder.tail
          snaps := match snapOrder.head? with
            | some old => snaps.erase old
            | none => snaps }, .recorded true)
      else ({ m with snapOrder, snaps }, .recorded true)

def activeRunsByInitiator (m : MemoryStore) (initiatorKind initiatorID : String) : Reply :=
  .count (m.order.countP fun id => (m.runs.lookup id).any fun e =>
    e.run.startedBy initiatorKind initiatorID && e.run.midFlight)

def call (env : Env) (now : Int) (m : MemoryStore) : Call → MemoryStore × Reply
  | .createRun id duration kind initiator pairTotal _ =>
    m.createRun now id duration kind initiator pairTotal
  | .markRunStarted id => m.markRunStarted now id
  | .finishRun id status pairOK pairFailed => m.finishRun now id status pairOK pairFailed
  | .abandonRun id status => m.abandonRun now id status
  | .upsertRunResult i => m.upsertRunResult now i
  | .upsertPathSnapshot i => m.upsertPathSnapshot env i
  | .reapStuckRuns budget limit => m.reapStuckRuns now budget limit
  | .activeRunsByInitiator kind initiator => (m, m.activeRunsByInitiator kind initiator)

end MemoryStore

/-! ## In SQL -/

structure RunRow where
  run : Run
  deadlineAt : Option Int
  deriving DecidableEq

structure ResultRow where
  runID : String
  result : RunResult
  deriving DecidableEq

/-- The three tables. Runs and results are listed in the order of their insertion, which is that
of the results' ids. -/
structure SqlStore where
  runs : List RunRow := []
  results : List ResultRow := []
  snaps : GoMap SnapshotKey PathSnapshot := ∅

namespace SqlStore

/-- The row with this primary key. -/
def find (q : SqlStore) (id : String) : Option RunRow := q.runs.find? (·.run.id = id)

def setRun (q : SqlStore) (id : String) (change : Run → Run) : SqlStore :=
  { q with runs := q.runs.map fun row =>
      if row.run.id = id then { row with run := change row.run } else row }

def createRun (q : SqlStore) (now : Int) (id : String) (duration : Int)
    (initiatorKind initiatorID : String) (pairTotal deadlineAt : Int) : SqlStore × Reply :=
  if (q.find id).isSome then (q, .failed .alreadyExists)
  else
    let run : Run := { id, createdAt := now, duration, initiatorKind, initiatorID, pairTotal }
    let row : RunRow := ⟨run, if deadlineAt = 0 then none else some deadlineAt⟩
    ({ q with runs := q.runs ++ [row] }, .done)

/-- An UPDATE guarded by the status, and what the caller makes of no row matched. -/
def update (q : SqlStore) (id : String) (guard : Run → Bool) (change : Run → Run)
    (unmatched : Reply) : SqlStore × Reply :=
  match q.find id with
  | none => (q, .failed .notFound)
  | some row => if guard row.run then (q.setRun id change, .done) else (q, unmatched)

def markRunStarted (q : SqlStore) (now : Int) (id : String) : SqlStore × Reply :=
  q.update id (fun run => run.status = .pending)
    (fun run => { run with status := .running, startedAt := some now }) (.failed .wrongState)

def finishRun (q : SqlStore) (now : Int) (id : String) (status : RunStatus)
    (pairOK pairFailed : Int) : SqlStore × Reply := q.update id (fun run => run.status = .running)
    (fun run => { run with status, finishedAt := some now, pairOK, pairFailed })
    (.failed .wrongState)

def abandonRun (q : SqlStore) (now : Int) (id : String) (status : RunStatus) : SqlStore × Reply :=
  q.update id Run.midFlight
    (fun run => { run with status, finishedAt := some now, pairOK := 0, pairFailed := 0 }) .done

/-- A result of a run that does not exist breaks the foreign key. -/
def upsertRunResult (q : SqlStore) (now : Int) (i : RunResultInput) : SqlStore × Reply :=
  if (q.find i.runID).isNone then (q, .failed .other)
  else
    let row : ResultRow := ⟨i.runID, i.row now⟩
    let same (r : ResultRow) : Bool := r.runID = i.runID && r.result.key = i.key
    if q.results.any same then
      ({ q with results := q.results.map fun r => if same r then row else r }, .done)
    else ({ q with results := q.results ++ [row] }, .done)

/-- A trace over a known path never moves `lastSeen` back. A new row names a run that exists. -/
def upsertPathSnapshot (env : Env) (q : SqlStore) (i : PathSnapshotInput) : SqlStore × Reply :=
  match i.validate env with
  | none => (q, .failed .other)
  | some i =>
    match q.snaps.lookup i.key with
    | some snap =>
      let snap :=
        { snap with lastSeen := max snap.lastSeen i.seenAt, traceCount := snap.traceCount + 1 }
      ({ q with snaps := AList.insert i.key snap q.snaps }, .recorded false)
    | none =>
      if i.runID ≠ "" ∧ ((env.canonicalUUID i.runID).bind q.find).isNone then (q, .failed .other)
      else ({ q with snaps := AList.insert i.key i.first q.snaps }, .recorded true)

/-- The results of a run, oldest first. -/
def resultsOf (q : SqlStore) (id : String) : List RunResult :=
  (q.results.filter (·.runID = id)).map ResultRow.result

/-- The row that `DISTINCT ON` keeps for a pair: the highest sample, the newest row among equals. -/
def latestSample (rows : List RunResult) (pair : String × String) : Option RunResult :=
  (rows.filter fun r => (r.key.source, r.key.destination) = pair).foldl
    (fun best r => match best with
      | none => some r
      | some b => if b.key.sampleSeq ≤ r.key.sampleSeq then some r else some b) none

/-- How many pairs succeeded and failed by their latest sample. -/
def pairTally (rows : List RunResult) : Int × Int :=
  let latest := (rows.map fun r => (r.key.source, r.key.destination)).dedup.filterMap
    (latestSample rows)
  (latest.countP RunResult.success, latest.countP fun r => !r.success)

/-- A run past its own deadline, or past the estimate when the row has none. -/
def overdue (now : Int) (budget : ReapBudget) (row : RunRow) : Bool :=
  row.run.midFlight && match row.deadlineAt with
    | some deadline => deadline < now - budget.slack
    | none => row.run.createdAt < now - row.run.duration -
        batches row.run.pairTotal budget.perSourceConcurrency * budget.perPairTimeout - budget.slack

/-- The runs of the CTE `doomed`. -/
def doomed (q : SqlStore) (now : Int) (budget : ReapBudget) (limit : Int) : List String :=
  (((q.runs.filter (overdue now budget)).insertionSort
    fun a b => a.run.createdAt ≤ b.run.createdAt).take limit.toNat).map (·.run.id)

/-- A negative limit is an error, and so is a division by zero slots for a row that needs it. -/
def reapStuckRuns (q : SqlStore) (now : Int) (budget : ReapBudget) (limit : Int) :
    SqlStore × Reply :=
  if limit < 0 ∨ budget.perSourceConcurrency = 0 ∧
      ∃ row ∈ q.runs, row.run.midFlight ∧ row.deadlineAt = none then (q, .failed .other)
  else
    let ids := q.doomed now budget limit
    let cancel (run : Run) : Run :=
      let tally := pairTally (q.resultsOf run.id)
      { run with
        status := .cancelled, finishedAt := some now, pairOK := tally.1, pairFailed := tally.2 }
    ({ q with runs := q.runs.map fun row =>
        if row.run.id ∈ ids then { row with run := cancel row.run } else row }, .count ids.length)

def activeRunsByInitiator (q : SqlStore) (now : Int) (initiatorKind initiatorID : String) : Reply :=
  .count (q.runs.countP fun row =>
    row.run.startedBy initiatorKind initiatorID && row.run.midFlight &&
      row.deadlineAt.all (now < ·))

/-- The texts that a call hands to the database. -/
def texts : Call → List String
  | .createRun _ _ kind initiator _ _ => [kind, initiator]
  | .upsertRunResult i => [i.sourceNode, i.destinationNode, i.error]
  | .upsertPathSnapshot i => i.sourceNode :: i.destination :: i.hops.map PathHop.ip
  | .activeRunsByInitiator kind initiator => [kind, initiator]
  | .markRunStarted _ | .finishRun .. | .abandonRun .. | .reapStuckRuns .. => []

/-- An id is parsed before anything else. -/
def withID (env : Env) (q : SqlStore) (id : String) (statement : String → SqlStore × Reply) :
    SqlStore × Reply :=
  match env.canonicalUUID id with
  | none => (q, .failed .other)
  | some id => statement id

def call (env : Env) (now : Int) (q : SqlStore) (c : Call) : SqlStore × Reply :=
  if (texts c).all storable = false then (q, .failed .other)
  else
    match c with
    | .createRun id duration kind initiator pairTotal deadlineAt =>
      withID env q id fun id => q.createRun now id duration kind initiator pairTotal deadlineAt
    | .markRunStarted id => withID env q id (q.markRunStarted now)
    | .finishRun id status pairOK pairFailed =>
      withID env q id fun id => q.finishRun now id status pairOK pairFailed
    | .abandonRun id status => withID env q id fun id => q.abandonRun now id status
    | .upsertRunResult i => withID env q i.runID fun runID => q.upsertRunResult now { i with runID }
    | .upsertPathSnapshot i => q.upsertPathSnapshot env i
    | .reapStuckRuns budget limit => q.reapStuckRuns now budget limit
    | .activeRunsByInitiator kind initiator => (q, q.activeRunsByInitiator now kind initiator)

end SqlStore

end Kconmon.Console.RunStore
