import Kconmon.Console.Checks

/-!
# Executing a run

`execute` dispatches the pairs of a run round after round, one goroutine for
each pair, and closes the run with the tally it kept in memory. Each goroutine
records its outcome, writes its row and publishes its frames; the steps of
different goroutines interleave, and the run can be cancelled, or hit its
ceiling, between any two of them. The run detail page builds its table from the
stored rows and from the frames that reached it.
-/
namespace Kconmon.Console.Checks
open Lib

def maxSamplesPerPair : Nat := 500
def runResultsCap : Nat := 2000

def Destination.label (d : Destination) : String :=
  if d.isNode then d.node else if d.name ≠ "" then d.name else d.address

def nul : Char := Char.ofNat 0

/-- The composite key of a pair, in the console as in the browser. -/
def pairKey (source destination : String) : String := source ++ String.singleton nul ++ destination

/-! ## The tally in memory -/

structure PairOutcomes where
  sampleOK : Nat := 0
  sampleFailed : Nat := 0
  latest : GoMap String Bool := ∅

namespace PairOutcomes

def record (o : PairOutcomes) (source destination : String) (success : Bool) : PairOutcomes where
  sampleOK := if success then o.sampleOK + 1 else o.sampleOK
  sampleFailed := if success then o.sampleFailed else o.sampleFailed + 1
  latest := AList.insert (pairKey source destination) success o.latest

/-- Every pair with a sample counts once; the order of the visits does not matter. -/
def pairs (o : PairOutcomes) : Nat × Nat :=
  o.latest.entries.foldl (fun n e => if e.2 then (n.1 + 1, n.2) else (n.1, n.2 + 1)) (0, 0)

end PairOutcomes

inductive RunStatus where
  | pending
  | running
  | succeeded
  | failed
  | partialRun
  | cancelled
  deriving DecidableEq

def finalStatus (pairOK pairFailed total : Nat) : RunStatus :=
  if total = 0 ∨ pairOK = total then .succeeded
  else if pairFailed = total then .failed
  else .partialRun

/-! ## Stored rows -/

/-- One probe of one pair. The rows of a run are listed in the order of their ids. -/
structure RunResult where
  sourceNode : String
  destinationNode : String
  success : Bool
  durationNs : Int
  error : String
  sampleSeq : Nat
  deriving DecidableEq

/-- The columns of the unique constraint. -/
def RunResult.slot (r : RunResult) : String × String × Nat :=
  (r.sourceNode, r.destinationNode, r.sampleSeq)

/-- A text column takes any text without a NUL. -/
def storable (text : String) : Bool := nul ∉ text.toList

/-- A row that is there already keeps its id. -/
def upsertRunResult (rows : List RunResult) (r : RunResult) : List RunResult :=
  if r.slot ∈ rows.map RunResult.slot then rows.map fun x => if x.slot = r.slot then r else x
  else rows ++ [r]

/-- The newest rows, oldest first, and whether there are more of them. -/
def getRunResults (rows : List RunResult) : List RunResult × Bool :=
  let newest := rows.reverse.take (runResultsCap + 1)
  let truncated := newest.length > runResultsCap
  let newest := if truncated then newest.take runResultsCap else newest
  (newest.reverse, truncated)

/-! ## The detail page -/

inductive PairState where
  | dispatched
  | succeeded
  | failed
  | timeout
  deriving DecidableEq

structure ProgressFrame where
  source : String
  destination : String
  state : PairState
  success : Bool := false
  durationNs : Int := 0
  error : String := ""
  completed : Nat
  total : Nat
  sampleSeq : Nat
  deriving DecidableEq

structure RunPairRow where
  source : String
  destination : String
  state : PairState
  success : Bool
  durationNs : Int
  error : String
  deriving DecidableEq

def fromResult (r : RunResult) : RunPairRow :=
  ⟨r.sourceNode, r.destinationNode, if r.success then .succeeded else .failed, r.success,
    r.durationNs, r.error⟩

def fromFrame (f : ProgressFrame) : RunPairRow :=
  ⟨f.source, f.destination, f.state, f.success, f.durationNs, f.error⟩

def mergedRows (results : List RunResult) (frames : GoMap String ProgressFrame) :
    GoMap String RunPairRow :=
  let rows := frames.entries.foldl
    (fun rows e => AList.insert (pairKey e.2.source e.2.destination) (fromFrame e.2) rows) ∅
  results.foldl
    (fun rows r => AList.insert (pairKey r.sourceNode r.destinationNode) (fromResult r) rows) rows

/-- One row for each pair: a stored row wins over a frame, a later row over an earlier one. -/
def mergeRunPairs (results : List RunResult) (frames : GoMap String ProgressFrame) :
    List RunPairRow := (mergedRows results frames).entries.map fun e => e.2

/-! ## The run -/

structure PairOutcome where
  success : Bool
  durationNs : Int := 0
  errStr : String := ""
  timedOut : Bool := false
  deriving DecidableEq

def PairOutcome.state (o : PairOutcome) : PairState :=
  if o.success then .succeeded else if o.timedOut then .timeout else .failed

/-- Where the goroutine of a pair is. -/
inductive Stage where
  | launched
  | waiting
  | recorded (o : PairOutcome)
  | reporting (o : PairOutcome)
  deriving DecidableEq

inductive Phase where
  | dispatching
  | sleeping
  | finished (status : RunStatus) (pairOK pairFailed : Nat)
  deriving DecidableEq

/-- What `execute` is given: the plan, the requested duration (none for an instant run), the
cadence and the planned number of rounds. -/
structure Job where
  pairs : List Pair
  duration : Int
  interval : Int
  rounds : Nat

structure RunState where
  phase : Phase := .dispatching
  round : Nat := 0
  /-- the indices that this round has not dispatched yet -/
  queue : List Nat
  /-- the dispatch loop was left early -/
  stopped : Bool := false
  inFlight : GoMap Nat Stage := ∅
  /-- the run's context is done -/
  cancelled : Bool := false
  /-- by an operator, not by the ceiling -/
  byOperator : Bool := false
  completed : Nat := 0
  outcomes : PairOutcomes := {}
  rows : List RunResult := []
  frames : List ProgressFrame := []

namespace RunState

def start (job : Job) : RunState := { queue := interleaveBySource job.pairs }

def total (job : Job) (s : RunState) : Nat := job.pairs.length * max job.rounds (s.round + 1)

def publish (f : ProgressFrame) (s : RunState) : RunState := { s with frames := s.frames ++ [f] }

def setStage (i : Nat) (stage : Stage) (s : RunState) : RunState :=
  { s with inFlight := AList.insert i stage s.inFlight }

/-- The pairs in flight from one source. -/
def busyAt (job : Job) (source : String) (s : RunState) : Nat :=
  s.inFlight.keys.countP fun i => sourceAt job.pairs i = source

/-- Both windows have room and the goroutine of the next pair is started. -/
def dispatch (job : Job) (s : RunState) : Option RunState :=
  match s.queue with
  | [] => none
  | i :: queue =>
    if s.phase = .dispatching ∧ s.stopped = false ∧ s.inFlight.entries.length < maxConcurrency ∧
        s.busyAt job (sourceAt job.pairs i) < maxPerSourceConcurrency then
      some ({ s with queue }.setStage i .launched)
    else none

def begun (job : Job) (pair : Pair) (s : RunState) : ProgressFrame where
  source := pair.source
  destination := pair.destination.label
  state := .dispatched
  completed := s.completed
  total := s.total job
  sampleSeq := s.round

def ended (job : Job) (pair : Pair) (state : PairState) (o : PairOutcome) (s : RunState) :
    ProgressFrame where
  source := pair.source
  destination := pair.destination.label
  state
  success := o.success
  durationNs := o.durationNs
  error := o.errStr
  completed := s.completed + 1
  total := s.total job
  sampleSeq := s.round

def record (pair : Pair) (success : Bool) (s : RunState) : RunState :=
  { s with outcomes := s.outcomes.record pair.source pair.destination.label success }

def rowOf (pair : Pair) (o : PairOutcome) (s : RunState) : RunResult where
  sourceNode := pair.source
  destinationNode := pair.destination.label
  success := o.success
  durationNs := o.durationNs
  error := o.errStr
  sampleSeq := s.round

/-- The last frame of a pair; its goroutine gives both slots back. -/
def report (job : Job) (i : Nat) (pair : Pair) (state : PairState) (o : PairOutcome)
    (s : RunState) : RunState :=
  { s.publish (s.ended job pair state o) with
    completed := s.completed + 1
    inFlight := s.inFlight.erase i }

/-- One step of the goroutine that probes `pair`: `runOne` from its first frame on. -/
def advance (job : Job) (i : Nat) (pair : Pair) (s : RunState) : Stage → Option RunState
  | .launched => some ((s.publish (s.begun job pair)).setStage i .waiting)
  | .waiting => none
  | .recorded _ => none
  | .reporting o => some (s.report job i pair o.state o)

/-- The probe came back. -/
def probed (i : Nat) (pair : Pair) (o : PairOutcome) (s : RunState) : Stage → Option RunState
  | .waiting => some ((s.record pair o.success).setStage i (.recorded o))
  | _ => none

/-- The row is written, or the write fails and is logged. -/
def written (i : Nat) (pair : Pair) (ok : Bool) (s : RunState) : Stage → Option RunState
  | .recorded o =>
    if ok = false then some (s.setStage i (.reporting o))
    else if storable pair.source ∧ storable pair.destination.label then
      some ({ s with rows := upsertRunResult s.rows (s.rowOf pair o) }.setStage i (.reporting o))
    else none
  | _ => none

/-- The goroutine panics: the pair is recorded as failed, and no row is written any more. -/
def recovered (job : Job) (i : Nat) (pair : Pair) (message : String) (s : RunState) : RunState :=
  (s.record pair false).report job i pair .failed
    { success := false, errStr := "checks: pair panicked: " ++ message }

def finish (job : Job) (s : RunState) : RunState :=
  let expected := if job.duration > 0 then s.outcomes.sampleOK + s.outcomes.sampleFailed
    else job.pairs.length
  let status := finalStatus s.outcomes.sampleOK s.outcomes.sampleFailed expected
  let status := if s.byOperator then .cancelled else status
  { s with phase := .finished status s.outcomes.pairs.1 s.outcomes.pairs.2 }

/-- `wg.Wait` has returned at `now`, counted from the start of the run. -/
def endRound (job : Job) (now : Int) (s : RunState) : RunState :=
  if s.cancelled then s.finish job
  else if job.duration ≤ 0 then s.finish job
  else if s.round + 1 ≥ maxSamplesPerPair then s.finish job
  else if ¬ now < job.duration then s.finish job
  else if (s.round + 1 : Nat) * job.interval > job.duration then s.finish job
  else { s with phase := .sleeping }

def nextRound (job : Job) (s : RunState) : RunState :=
  { s with
    phase := .dispatching
    round := s.round + 1
    queue := interleaveBySource job.pairs
    stopped := false }

end RunState

inductive RunEvent where
  | cancel (byOperator : Bool)
  | dispatch
  | stopDispatch
  | advance (i : Nat)
  | probed (i : Nat) (o : PairOutcome)
  | written (i : Nat) (ok : Bool)
  | panicked (i : Nat) (message : String)
  | endRound (now : Int)
  /-- the next boundary has come; it may have passed without any wait -/
  | wake (waited : Bool)
  | giveUp
  deriving DecidableEq

namespace RunState

/-- The goroutine of index `i`, with its pair. -/
def goroutine (job : Job) (s : RunState) (i : Nat) : Option (Pair × Stage) :=
  (job.pairs[i]?).bind fun pair => (s.inFlight.lookup i).map fun stage => (pair, stage)

def step (job : Job) (s : RunState) : RunEvent → Option RunState
  | .cancel byOperator =>
    some { s with cancelled := true, byOperator := s.byOperator || byOperator }
  | .dispatch => s.dispatch job
  | .stopDispatch =>
    if s.phase = .dispatching ∧ s.cancelled then some { s with stopped := true } else none
  | .advance i => (s.goroutine job i).bind fun g => s.advance job i g.1 g.2
  | .probed i o => (s.goroutine job i).bind fun g => s.probed i g.1 o g.2
  | .written i ok => (s.goroutine job i).bind fun g => s.written i g.1 ok g.2
  | .panicked i message => (s.goroutine job i).map fun g => s.recovered job i g.1 message
  | .endRound now =>
    if s.phase = .dispatching ∧ (s.queue = [] ∨ s.stopped) ∧ s.inFlight.entries = [] then
      some (s.endRound job now)
    else none
  | .wake waited =>
    if s.phase = .sleeping then
      -- a boundary already past asks the context; a timer that fires may win against it
      if waited = false ∧ s.cancelled then some (s.finish job) else some (s.nextRound job)
    else none
  | .giveUp => if s.phase = .sleeping ∧ s.cancelled then some (s.finish job) else none

end RunState

end Kconmon.Console.Checks
