import Kconmon.Lib.GoMap
import Mathlib.Data.List.Sort

/-!
# Watching Prometheus for alert edges

The watcher polls the firing alerts, compares each good observation with the last one and notifies
about the differences. A maintenance window holds the notifications of the alerts it covers. After a
restart the first observation is a baseline that nobody is told about; which of its alerts an
earlier process held is decided by the first successful read of the windows.

Every poll comes with the answers it will get, `Poll`. `effects` records what the watcher told its
notifier and what it counted as held back, newest first, with the fingerprint each is about;
`readErrors` counts the failed reads of windows, and `baseline` remembers the first observation.
-/
namespace Kconmon.Console.Webhooks
open Lib

/-- In nanoseconds. -/
abbrev Time := Int

abbrev Labels := GoMap String String

def Labels.get (labels : Labels) (name : String) : String := (AList.lookup name labels).getD ""

structure Alert where
  ruleID : String
  ruleName : String
  severity : String
  expr : String := ""
  labels : Labels
  annotations : Labels
  firedAt : Time
  resolvedAt : Option Time := none
  deriving DecidableEq

structure MaintenanceWindow where
  /-- Empty for a global window; else a node, a pair or a target. -/
  scope : String
  startAt : Time
  endAt : Time
  createdAt : Time
  deriving DecidableEq

/-- What the watcher reads of an alert_rules row. -/
structure AlertRule where
  id : String
  name : String
  renderedExpr : String
  forNs : Int
  deriving DecidableEq

inductive Event where
  | alertFired
  | alertResolved
  deriving DecidableEq

inductive Effect where
  | notified (event : Event) (fp : String) (alert : Alert)
  | suppressed (event : Event) (fp : String)
  deriving DecidableEq

def Effect.fp : Effect → String
  | .notified _ fp _ | .suppressed _ fp => fp

/-- Which of the optional sources there are, and the hash that fingerprints use. -/
structure AlertWatcherDeps where
  rules : Bool
  maintenance : Bool
  interval : Int
  sha256 : String → String

def defaultAlertPollInterval : Int := 30000000000

def AlertWatcherDeps.pollInterval (d : AlertWatcherDeps) : Int :=
  if d.interval ≤ 0 then defaultAlertPollInterval else d.interval

structure AlertWatcher where
  /-- The last good observation. -/
  firing : GoMap String Alert := ∅
  baselined : Bool := false
  /-- The alerts whose fired edge a window held back. -/
  suppressed : GoMap String Unit := ∅
  /-- The alerts of the baseline, until a read of the windows decides which were held before. -/
  unchecked : GoMap String Unit := ∅
  /-- The resolves of unchecked alerts that ended before that read. -/
  pendingResolve : GoMap String Alert := ∅
  baselineAt : Time := 0
  effects : List Effect := []
  readErrors : Nat := 0
  baseline : GoMap String Unit := ∅

/-! ## Observations -/

structure PromAlert where
  labels : Labels
  annotations : Labels
  state : String
  activeAt : Option Time

structure Envelope where
  status : String
  alerts : List PromAlert

inductive Answer where
  | failed
  /-- Not JSON of the expected shape. -/
  | unreadable
  | body (envelope : Envelope)

/-- One page of a listing of windows, `none` when the store fails. -/
abbrev Page := Option (List MaintenanceWindow)

structure Poll where
  answer : Answer
  now : Time
  /-- The clock when the loop over the ended alerts begins. -/
  resolvedAt : Time
  /-- The answer to a listing of the windows open at the baseline. -/
  baselinePages : List Page
  /-- The answer to a listing of the windows open now. -/
  pages : List Page
  rules : Option (List AlertRule)

def sortedKeys {ν : Type*} (m : GoMap String ν) : List String := m.keys.insertionSort (· ≤ ·)

def fingerprint (d : AlertWatcherDeps) (ruleID : String) (labels : Labels) : String :=
  ruleID ++ "/" ++ d.sha256 (String.join ((sortedKeys labels).flatMap fun k =>
    let v := labels.get k
    [toString k.utf8ByteSize, k, toString v.utf8ByteSize, v]))

/-- The managed alerts that fire, by fingerprint. -/
def decode (d : AlertWatcherDeps) (now : Time) : Answer → Option (GoMap String Alert)
  | .failed | .unreadable => none
  | .body envelope =>
    if envelope.status ≠ "success" then none
    else some (envelope.alerts.foldl (fun observed a =>
      let ruleID := a.labels.get "kconmon_ng_rule_id"
      if a.state ≠ "firing" ∨ ruleID = "" then observed
      else observed.insert (fingerprint d ruleID a.labels)
        { ruleID
          ruleName := a.labels.get "alertname"
          severity := a.labels.get "severity"
          labels := a.labels
          annotations := a.annotations
          firedAt := a.activeAt.getD now }) ∅)

/-- The rows by id, empty when there are none to be had. -/
def rulesOnce (d : AlertWatcherDeps) (p : Poll) : GoMap String AlertRule :=
  if d.rules then (p.rules.getD []).foldl (fun byID row => byID.insert row.id row) ∅ else ∅

def enrich (byID : GoMap String AlertRule) (observed : GoMap String Alert) : GoMap String Alert :=
  observed.mapValues fun a =>
    match byID.lookup a.ruleID with
    | some row => { a with ruleName := row.name, expr := row.renderedExpr }
    | none => a

/-! ## Windows -/

def MaintenanceWindow.openAt (mw : MaintenanceWindow) (now : Time) : Bool :=
  mw.startAt ≤ now && now < mw.endAt

def openPages (now : Time) : List Page → Option (List MaintenanceWindow)
  | [] => some []
  | none :: _ => none
  | some windows :: pages => (openPages now pages).map (windows.filter (·.openAt now) ++ ·)

def pairArrow : String := "→"

def scopeCovers (scope : String) (labels : Labels) : Bool :=
  let src := labels.get "source_node"
  let dst := labels.get "destination_node"
  let target := labels.get "target"
  if scope = "" then true
  else if scope = src ∨ scope = dst ∨ scope = target then true
  else src ≠ "" ∧ dst ≠ "" ∧ scope = src ++ pairArrow ++ dst

def covered (windows : List MaintenanceWindow) (labels : Labels) : Bool :=
  windows.any fun mw => scopeCovers mw.scope labels

/-- A covering window was declared and started before an earlier process first saw the alert. -/
def heldBefore (d : AlertWatcherDeps) (windows : List MaintenanceWindow)
    (byID : GoMap String AlertRule) (a : Alert) : Bool :=
  let seenBy := a.firedAt + d.pollInterval
  let seenBy := match byID.lookup a.ruleID with
    | some row => seenBy + row.forNs
    | none => seenBy
  windows.any fun mw =>
    scopeCovers mw.scope a.labels && decide (max mw.startAt mw.createdAt ≤ seenBy)

namespace AlertWatcher

/-- `none` when the windows could not be read. -/
def openWindows (d : AlertWatcherDeps) (w : AlertWatcher) (now : Time) (pages : List Page) :
    AlertWatcher × Option (List MaintenanceWindow) :=
  if d.maintenance = false then (w, some [])
  else match openPages now pages with
    | some windows => (w, some windows)
    | none => ({ w with readErrors := w.readErrors + 1 }, none)

/-- Whether this poll has something the open windows could decide. -/
def needsWindows (w : AlertWatcher) (observed : GoMap String Alert) : Bool :=
  w.suppressed.keys ≠ [] || observed.keys.any fun fp => fp ∉ w.firing

def windowsFor (d : AlertWatcherDeps) (w : AlertWatcher) (p : Poll)
    (observed : GoMap String Alert) : AlertWatcher × Option (List MaintenanceWindow) :=
  if w.needsWindows observed then w.openWindows d p.now p.pages else (w, some [])

/-- `none` when there is nothing to decide or the windows could not be read. -/
def baselineWindows (d : AlertWatcherDeps) (w : AlertWatcher) (p : Poll) :
    AlertWatcher × Option (List MaintenanceWindow) :=
  if w.unchecked.keys = [] ∧ w.pendingResolve.keys = [] then (w, none)
  else w.openWindows d w.baselineAt p.baselinePages

/-! ## Edges -/

def notifyAlert (w : AlertWatcher) (event : Event) (fp : String) (a : Alert) : AlertWatcher :=
  { w with effects := .notified event fp a :: w.effects }

def countSuppressed (w : AlertWatcher) (event : Event) (fp : String) : AlertWatcher :=
  { w with effects := .suppressed event fp :: w.effects }

def hold (w : AlertWatcher) (fp : String) : AlertWatcher :=
  { w with suppressed := w.suppressed.insert fp () }.countSuppressed .alertFired fp

/-- Holds what an earlier process held of the baseline. -/
def holdUnchecked (d : AlertWatcherDeps) (w : AlertWatcher) (windows : List MaintenanceWindow)
    (byID : GoMap String AlertRule) : AlertWatcher :=
  let candidates := w.unchecked.keys.filter fun fp =>
    (w.firing.lookup fp).any fun a => covered windows a.labels
  let w := candidates.foldl (fun w fp =>
    if (w.firing.lookup fp).any (heldBefore d windows byID) then w.hold fp else w) w
  { w with unchecked := ∅ }

/-- Settles the resolves that waited for a read of the windows. -/
def decidePendingResolves (d : AlertWatcherDeps) (w : AlertWatcher)
    (windows : List MaintenanceWindow)
    (byID : GoMap String AlertRule) : AlertWatcher :=
  let w := (sortedKeys w.pendingResolve).foldl (fun w fp =>
    match w.pendingResolve.lookup fp with
    | some a =>
      if heldBefore d windows byID a then w.countSuppressed .alertResolved fp
      else w.notifyAlert .alertResolved fp a
    | none => w) w
  { w with pendingResolve := ∅ }

/-- An alert that fires now. -/
def observe (windows : Option (List MaintenanceWindow)) (observed : GoMap String Alert)
    (w : AlertWatcher) (fp : String) : AlertWatcher :=
  match observed.lookup fp with
  | none => w
  | some a =>
    -- Firing again: a late resolve of its earlier run would close the new one.
    let w := { w with pendingResolve := w.pendingResolve.erase fp }
    if fp ∉ w.firing then
      if covered (windows.getD []) a.labels then w.hold fp else w.notifyAlert .alertFired fp a
    else if fp ∈ w.suppressed ∧ windows.isSome ∧ covered (windows.getD []) a.labels = false then
      { w with suppressed := w.suppressed.erase fp }.notifyAlert .alertFired fp a
    else w

/-- An alert of the last observation, which may have ended. -/
def leave (resolvedAt : Time) (observed : GoMap String Alert) (w : AlertWatcher) (fp : String) :
    AlertWatcher :=
  match w.firing.lookup fp with
  | none => w
  | some a =>
    let ended := { a with resolvedAt := some resolvedAt }
    if fp ∈ observed then w
    else if fp ∈ w.unchecked then
      { w with unchecked := w.unchecked.erase fp
               pendingResolve := w.pendingResolve.insert fp ended }
    else if fp ∈ w.suppressed then
      { w with suppressed := w.suppressed.erase fp }.countSuppressed .alertResolved fp
    else w.notifyAlert .alertResolved fp ended

/-- The first good observation; with windows to be read, none of its alerts is checked yet. -/
def rebase (d : AlertWatcherDeps) (w : AlertWatcher) (p : Poll) (observed : GoMap String Alert) :
    AlertWatcher :=
  { w with
    firing := observed
    baselined := true
    baselineAt := p.now
    baseline := GoMap.ofKeys observed.keys ()
    unchecked :=
      if d.maintenance then observed.keys.foldl (fun m fp => m.insert fp ()) w.unchecked
      else w.unchecked }

def takeBaseline (d : AlertWatcherDeps) (w : AlertWatcher) (p : Poll)
    (observed : GoMap String Alert) : AlertWatcher :=
  let w := w.rebase d p observed
  let (w, baseline) := w.baselineWindows d p
  baseline.elim w fun windows => w.holdUnchecked d windows (rulesOnce d p)

/-- A later observation, compared with the last. -/
def diff (d : AlertWatcherDeps) (w : AlertWatcher) (p : Poll) (observed : GoMap String Alert) :
    AlertWatcher :=
  let byID := rulesOnce d p
  let observed := enrich byID observed
  let (w, baseline) := w.baselineWindows d p
  let w := baseline.elim w fun windows => w.holdUnchecked d windows byID
  let (w, windows) := w.windowsFor d p observed
  let w := baseline.elim w fun windows => w.decidePendingResolves d windows byID
  let w := (sortedKeys observed).foldl (observe windows observed) w
  let w := (sortedKeys w.firing).foldl (leave p.resolvedAt observed) w
  { w with firing := observed }

/-- A poll that fails changes nothing. -/
def poll (d : AlertWatcherDeps) (w : AlertWatcher) (p : Poll) : AlertWatcher :=
  match decode d p.now p.answer with
  | none => w
  | some observed => if w.baselined then w.diff d p observed else w.takeBaseline d p observed

end AlertWatcher

end Kconmon.Console.Webhooks
