import Kconmon.Console.ImportRules
import Kconmon.Console.RunExecution

/-!
# Firing schedules

The replica that holds the lock lists the schedules that are due and goes through them. It starts a
run for each, unless the definition is disabled or the previous run is still in flight. What became
of it is written to the row of the schedule, together with when it is due again. Between any two of
these attempts runs begin and end on their own, and schedules are created.

The clock of the replica decides what is due, the clock of the database whether a run is past its
deadline. What the stores and the runner answer to one attempt is its `Answer`. Instants are
nanoseconds; a column keeps whole microseconds.
-/
namespace Kconmon.Console.Scheduler
open Lib
open Checks (RunStatus second)
open Import (ScheduleInput clampScheduleInterval)

def dueLimit : Nat := 100
def onceSkipRetry : Int := 60 * second
def scheduleErrorMaxLen : Nat := 500

structure Schedule extends ScheduleInput where
  lastFiredAt : Option Int := none
  nextFireAt : Option Int := none
  lastError : String := ""
  lastErrorAt : Option Int := none
  deriving DecidableEq

/-- A run that a schedule started. -/
structure Run where
  id : String
  initiatorID : String
  createdAt : Int
  deadlineAt : Option Int
  status : RunStatus := .pending
  deriving DecidableEq

def Run.midFlight (r : Run) : Bool := r.status = .pending || r.status = .running

/-- What `CountActiveRunsByInitiator` counts. -/
def Run.active (schedule : String) (now : Int) (r : Run) : Bool :=
  r.initiatorID = schedule && r.midFlight && r.deadlineAt.all (now < ·)

/-- Why no run was started. -/
inductive StartError where
  | getDefinition (definitionID text : String)
  /-- `specFor` has no spec; `unrunnable` if the agents refuse what the definition describes -/
  | spec (text : String) (unrunnable : Bool)
  /-- the runner refused, or failed -/
  | startRun (text : String) (invalidPlane : Bool)
  deriving DecidableEq

/-- Only an edit of the definition clears the refusal. -/
def StartError.cannotRun : StartError → Bool
  | .getDefinition _ _ => false
  | .spec _ unrunnable => unrunnable
  | .startRun _ invalidPlane => invalidPlane

def StartError.detail : StartError → String
  | .getDefinition definitionID text => "get definition " ++ definitionID ++ ": " ++ text
  | .spec text _ => text
  | .startRun text _ => "start run: " ++ text

def schedulePrefix (id : String) : String := "scheduler: schedule " ++ id ++ ": "

def StartError.error (id : String) (err : StartError) : String := schedulePrefix id ++ err.detail

inductive Start where
  | started (run : String) (deadlineAt : Option Int)
  | failed (err : StartError)
  deriving DecidableEq

structure Answer where
  /-- when the runs are counted -/
  now : Int
  /-- when the new run is created -/
  createdAt : Int
  /-- whether the definition is enabled, or why it could not be read -/
  definition : Except String Bool := .ok true
  activeRead : Bool := true
  getRead : Bool := true
  start : Start
  marked : Bool := true

inductive SkipReason where
  | overrun
  | disabled
  deriving DecidableEq

/-- What is counted, and the errors that a tick returns. -/
inductive Effect where
  | fired (schedule run : String)
  | skipped (schedule : String) (reason : SkipReason)
  | failed (schedule : String) (err : StartError)
  deriving DecidableEq

/-- The rows that the holder of the lock listed and has not come to yet. -/
structure Tick where
  replica : Nat
  now : Int
  due : List (String × Schedule)

structure State where
  schedules : GoMap String Schedule := ∅
  /-- oldest first -/
  runs : List Run := []
  /-- the run that each replica last started for a schedule -/
  lastRun : GoMap (Nat × String) String := ∅
  clock : Int := 0
  lastTick : Option Int := none
  tick : Option Tick := none
  effects : List Effect := []

/-! ## Rows -/

/-- As much of an instant as a column keeps. -/
def column (t : Int) : Int := t / 1000 * 1000

/-- The longest start of a text that fits into `budget` bytes and cuts no character. -/
def takeBytes : Nat → List Char → List Char
  | _, [] => []
  | budget, c :: cs =>
    if c.utf8Size ≤ budget then c :: takeBytes (budget - c.utf8Size) cs else []

def truncateScheduleError (lastError : String) : String :=
  if lastError.utf8ByteSize ≤ scheduleErrorMaxLen then lastError
  else
    let ellipsis := "…"
    String.ofList (takeBytes (scheduleErrorMaxLen - ellipsis.utf8ByteSize) lastError.toList) ++
      ellipsis

/-- `strings.TrimPrefix` -/
def trimStart (v start : String) : String :=
  if start.toList.isPrefixOf v.toList then String.ofList (v.toList.drop start.toList.length) else v

def scheduleErrorText (id : String) (err : StartError) : String :=
  trimStart (err.error id) (schedulePrefix id)

def markFired (firedAt : Int) (nextFireAt : Option Int) (lastError : String) (row : Schedule) :
    Schedule :=
  let lastError := truncateScheduleError lastError
  { row with
    lastFiredAt := some (column firedAt)
    nextFireAt := nextFireAt.map column
    lastError := lastError
    lastErrorAt := if lastError = "" then none else some (column firedAt) }

def markSkipped (nextFireAt : Option Int) (row : Schedule) : Schedule :=
  { row with nextFireAt := nextFireAt.map column }

/-- `none` takes the schedule out of the due index. -/
def nextFireAt (sched : Schedule) (now : Int) : Option Int :=
  if sched.kind = "once" then none
  else if sched.kind = "interval" then
    if sched.intervalNs ≤ 0 then none else some (now + sched.intervalNs)
  else none

def seedNextFireAt (row : ScheduleInput) (now : Int) : Option Int :=
  if row.kind = "once" then row.runAt
  else if row.kind = "interval" then some now
  else none

/-- The row that a request is stored as. Which definition it names, and whether that can run, is
not asked here. -/
def decodeScheduleRequest (req : ScheduleInput) (now : Int) : Option Schedule :=
  let row := { req with intervalNs := clampScheduleInterval req.kind req.intervalNs }
  if !row.wellTimed then none
  else if row.kind = "once" ∧ ¬ row.runAt.any (now < ·) then none
  else some { row with nextFireAt := (seedNextFireAt row now).map column }

/-! ## One schedule -/

/-- What `startFor` returns. -/
inductive Outcome where
  | skipped
  | started (run : Run)
  | failed (err : StartError)
  deriving DecidableEq

/-- What is written to the row of a schedule that was listed as `sched`. -/
def Outcome.record (id : String) (sched : Schedule) (now : Int) : Outcome → Schedule → Schedule
  | .skipped =>
    markSkipped (if sched.kind = "once" then some (now + onceSkipRetry) else nextFireAt sched now)
  | .started _ => markFired now (nextFireAt sched now) ""
  | .failed err =>
    if sched.kind = "once" ∧ err.cannotRun = false then markSkipped (some (now + onceSkipRetry))
    else markFired now (nextFireAt sched now) (scheduleErrorText id err)

namespace State

def report (s : State) (e : Effect) : State := { s with effects := e :: s.effects }

def forget (s : State) (replica : Nat) (id : String) : State :=
  { s with lastRun := s.lastRun.erase (replica, id) }

/-- An update of the schedule's row, where the write succeeds. -/
def mark (s : State) (a : Answer) (id : String) (change : Schedule → Schedule) : State :=
  match if a.marked then s.schedules.lookup id else none with
  | none => s
  | some row => { s with schedules := AList.insert id (change row) s.schedules }

def activeForInitiator (s : State) (now : Int) (id : String) : Bool :=
  s.runs.countP (Run.active id now) > 0

/-- The store is asked. Where it cannot answer, the replica's own memory of its last run is. -/
def previousRunActive (s : State) (replica : Nat) (a : Answer) (id : String) : State × Bool :=
  if a.activeRead then
    if s.activeForInitiator a.now id then (s, true) else (s.forget replica id, false)
  else
    match s.lastRun.lookup (replica, id) with
    | none => (s, false)
    | some runID =>
      match if a.getRead then s.runs.find? (·.id = runID) else none with
      | none => (s.forget replica id, false)
      | some run => if run.midFlight then (s, true) else (s.forget replica id, false)

def startRun (s : State) (replica : Nat) (run : Run) : State :=
  { s with
    runs := s.runs ++ [run]
    lastRun := AList.insert (replica, run.initiatorID) run.id s.lastRun
    clock := run.createdAt
    effects := .fired run.initiatorID run.id :: s.effects }

def startFor (s : State) (replica : Nat) (a : Answer) (id : String) (sched : Schedule) :
    State × Outcome :=
  let fail (s : State) (err : StartError) := (s.report (.failed id err), Outcome.failed err)
  match a.definition with
  | .error text => fail s (.getDefinition sched.definitionID text)
  | .ok false => (s.report (.skipped id .disabled), .skipped)
  | .ok true =>
    let guard := s.previousRunActive replica a id
    if guard.2 then (guard.1.report (.skipped id .overrun), .skipped)
    else
      match a.start with
      | .failed err => fail guard.1 err
      | .started run deadlineAt =>
        let run := { id := run, initiatorID := id, createdAt := a.createdAt, deadlineAt }
        (guard.1.startRun replica run, .started run)

def fireOne (s : State) (replica : Nat) (now : Int) (a : Answer) (id : String) (sched : Schedule) :
    State :=
  if sched.kind = "continuous" then s
  else
    let tried := s.startFor replica a id sched
    tried.1.mark a id (tried.2.record id sched now)

/-! ## Ticks -/

def isDue (now : Int) (row : Schedule) : Bool := row.enabled && row.nextFireAt.any (· ≤ column now)

def listDueSchedules (s : State) (now : Int) : List (String × Schedule) :=
  let due := (s.schedules.entries.map fun e => (e.1, e.2)).filter fun e => isDue now e.2
  (due.insertionSort fun a b => a.2.nextFireAt.getD 0 ≤ b.2.nextFireAt.getD 0).take dueLimit

end State

inductive Event where
  | create (id : String) (req : ScheduleInput) (now : Int)
  /-- a replica takes the lock; `listed` says whether the schedules could be read -/
  | begin (replica : Nat) (now : Int) (listed : Bool)
  /-- the holder of the lock comes to the next schedule -/
  | fire (a : Answer)
  /-- the lock is given up, at the end of the list or before -/
  | release
  /-- a run goes on to another status: its runner, an operator or the reaper acts -/
  | status (run : String) (status : RunStatus) (now : Int)

/-- A run that ended stays as it is. -/
def Run.moved (run : String) (status : RunStatus) (r : Run) : Run :=
  if r.id = run ∧ r.midFlight ∧ status ≠ .pending then { r with status } else r

/-- No clock of the database goes back, and no tick is as early as one before it. -/
def step (s : State) : Event → Option State
  | .create id req now =>
    if (s.schedules.lookup id).isSome then none
    else (decodeScheduleRequest req now).map fun row =>
      { s with schedules := AList.insert id row s.schedules }
  | .begin replica now listed =>
    if s.tick.isSome ∨ ¬ s.lastTick.all (· < now) then none
    else
      let due := if listed then s.listDueSchedules now else []
      some { s with lastTick := some now, tick := some { replica, now, due } }
  | .fire a =>
    match s.tick with
    | none => none
    | some tick =>
      match tick.due with
      | [] => none
      | (id, sched) :: due =>
        if a.now < s.clock ∨ a.createdAt < a.now then none
        else
          let s := { s with clock := a.now, tick := some { tick with due } }
          some (s.fireOne tick.replica tick.now a id sched)
  | .release => some { s with tick := none }
  | .status run status now =>
    if now < s.clock then none
    else some { s with clock := now, runs := s.runs.map (Run.moved run status) }

end Kconmon.Console.Scheduler
