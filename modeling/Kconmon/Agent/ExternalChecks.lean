import Kconmon.Checker.External

/-!
# The external checks of an agent

The agent hands the controller's assignment to the external checker in force. A reload of the
configuration keeps that checker, replaces it or removes it, and a replacement takes over the last
assignment. Sweeps report whenever they like: what they report is filtered by what the checker in
force applies before it is written to the external series.

The gauges of a check are deleted when the check leaves. Departures are counted from what the
outgoing checker applied to what the incoming assignment names. Swaps exclude deliveries, so each
is one step.
-/
namespace Kconmon.Agent
open Lib Checker

/-! ## The external series -/

inductive TargetKind where
  | host
  | url
  deriving DecidableEq

def externalTargetKind : CheckType → TargetKind
  | .http => .url
  | .tcp | .udp | .icmp | .pmtu | .dns | .mtr | .external => .host

/-- The labels of the external series. -/
structure ExternalLabels where
  node : String
  zone : String
  target : String
  kind : TargetKind
  checkType : CheckType
  deriving DecidableEq

/-- The external counters and histograms. -/
inductive ExternalCounter where
  | duration
  | rtt
  | results (success : Bool)
  | denied (reason : ExternalDenyReason)
  deriving DecidableEq

/-- The external families. Of the cumulative ones only the series are kept. -/
structure ExternalMetrics where
  packetLoss : GoMap ExternalLabels Rat := ∅
  httpStatusCode : GoMap ExternalLabels Int := ∅
  counters : List (ExternalCounter × ExternalLabels) := []
  /-- By node and check type. -/
  specsRejected : GoMap (String × String) Nat := ∅

namespace ExternalMetrics

def add (c : ExternalCounter) (labels : ExternalLabels) (m : ExternalMetrics) : ExternalMetrics :=
  { m with counters := List.insert (c, labels) m.counters }

/-- Deletion of the gauges whose labels match. -/
def forgetGauges (labels : ExternalLabels → Bool) (m : ExternalMetrics) : ExternalMetrics :=
  { m with packetLoss := m.packetLoss.sieveKeys fun l => !labels l
           httpStatusCode := m.httpStatusCode.sieveKeys fun l => !labels l }

def retireCounters (labels : ExternalLabels → Bool) (m : ExternalMetrics) : ExternalMetrics :=
  { m with counters := m.counters.filter fun s => !labels s.2 }

def retireExternalTarget (target : String) (m : ExternalMetrics) : ExternalMetrics :=
  (m.forgetGauges (·.target = target)).retireCounters (·.target = target)

def forgetExternalCheck (target : String) (kind : TargetKind) (checkType : CheckType)
    (m : ExternalMetrics) : ExternalMetrics :=
  m.forgetGauges fun l => l.target = target ∧ l.kind = kind ∧ l.checkType = checkType

def retireSourceZone (node zone : String) (m : ExternalMetrics) : ExternalMetrics :=
  let labels (l : ExternalLabels) : Bool := l.node = node ∧ l.zone = zone
  (m.forgetGauges labels).retireCounters labels

/-- A spec that was refused is counted under the check type it asked for. -/
def reject (node : String) (input : ExternalSpecInput) (m : ExternalMetrics) : ExternalMetrics :=
  let key := (node, input.checkType)
  { m with specsRejected := m.specsRejected.insert key ((m.specsRejected.lookup key).getD 0 + 1) }

end ExternalMetrics

/-- One probed target written to the series. -/
def recordExternalDetail (node zone : String) (m : ExternalMetrics) (d : ExternalDetails) :
    ExternalMetrics :=
  let kind := externalTargetKind d.checkType
  let labels : ExternalLabels := ⟨node, zone, d.name, kind, d.checkType⟩
  if d.notRun then m
  else if d.denied then
    (m.add (.denied (d.denyReason.getD .cidr)) labels).forgetExternalCheck d.name kind d.checkType
  else
    let m := m.add .duration labels
    let m :=
      if d.checkType = .icmp then
        let m := if d.success then m.add .rtt labels else m
        let loss := if !d.success ∧ d.lossRatio = 0 then 1 else d.lossRatio
        { m with packetLoss := m.packetLoss.insert labels loss }
      else m
    let m :=
      if d.checkType = .http then
        { m with httpStatusCode := m.httpStatusCode.insert labels d.statusCode }
      else m
    m.add (.results d.success) labels

/-! ## Departures -/

/-- The two sets of what was retired already, beside the series. -/
structure Retirement where
  metrics : ExternalMetrics
  seenName : List String := []
  seenCheck : List (String × CheckType) := []

/-- One applied check: the whole target goes when nothing incoming names it, otherwise the check
alone, and only once. -/
def Retirement.visit (keepName : List String) (keepCheck : List (String × CheckType))
    (r : Retirement) (c : ExternalCount) : Retirement :=
  let key := (c.name, c.type)
  if c.name ∉ keepName then
    if c.name ∈ r.seenName then r
    else { r with metrics := r.metrics.retireExternalTarget c.name
                  seenName := c.name :: r.seenName }
  else if key ∈ keepCheck then r
  else if key ∈ r.seenCheck then r
  else { r with
    metrics := r.metrics.forgetExternalCheck c.name (externalTargetKind c.type) c.type
    seenCheck := key :: r.seenCheck }

def retireDepartedExternalTargets (m : ExternalMetrics) (c : Option ExternalChecker)
    (records : Records) (next : List ExternalSpec) : ExternalMetrics :=
  match c with
  | none => m
  | some c =>
    let keepName := next.map (·.name)
    let keepCheck := next.map fun spec => (spec.name, spec.type)
    ((c.counts records).foldl (Retirement.visit keepName keepCheck) { metrics := m }).metrics

/-! ## The agent -/

/-- The `external` block of the configuration. The lists are `none` where the block has none. -/
structure ExternalCheckerConfig where
  enabled : Bool := false
  allowedCIDRs : Option (List String) := none
  deniedCIDRs : Option (List String) := none
  maxTargets : Int := 0
  timeout : Int := 0
  deriving DecidableEq

structure ExternalPolicy where
  enabled : Bool := false
  allowlist : Option Allowlist := none
  timeout : Int := 0
  /-- Zero is no ceiling. -/
  maxTargets : Int := 0

/-- The agent as far as it concerns external checks. -/
structure ExternalAgent where
  node : String
  zone : String
  cfg : ExternalCheckerConfig
  external : ExternalPolicy := {}
  externalChecker : Option ExternalChecker := none
  lastAssignment : Option (List ExternalSpecInput) := none
  metrics : ExternalMetrics := {}
  records : Records := []
  /-- How many checkers were built. -/
  built : Nat := 0
  /-- The sweeps that have not reported. -/
  sweeps : List Sweep := []

/-- The readers of the standard library. -/
structure Env where
  netip : Netip
  readers : Readers

namespace ExternalAgent

variable (env : Env)

/-- The loop over an assignment: the specs that parse, and a count for each that does not. -/
def parseAssignment (node : String) (m : ExternalMetrics) (specs : List ExternalSpecInput) :
    List ExternalSpec × ExternalMetrics :=
  specs.foldl (fun acc input =>
    match env.readers.parseExternalSpec input with
    | .ok spec => (acc.1 ++ [spec], acc.2)
    | .error _ => (acc.1, acc.2.reject node input)) ([], m)

/-- The ceiling on the number of targets. -/
def truncate (maxTargets : Int) (parsed : List ExternalSpec) : List ExternalSpec :=
  if 0 < maxTargets ∧ maxTargets < parsed.length then parsed.take maxTargets.toNat else parsed

/-- An assignment handed to the checker in force. Departures are counted from `retireFrom`,
or from the checker in force where there is none. -/
def applyExternalAssignmentLocked (assignment : List ExternalSpecInput)
    (retireFrom : Option ExternalChecker) (a : ExternalAgent) : ExternalAgent :=
  match a.externalChecker with
  | none => a
  | some c =>
    let (parsed, m) := parseAssignment env a.node a.metrics assignment
    let next := truncate a.external.maxTargets parsed
    let m := retireDepartedExternalTargets m (retireFrom.or (some c)) a.records next
    let (c, records) := c.setSpecs next a.records
    { a with externalChecker := some c, records, metrics := m }

/-- The handler of the assignment stream. -/
def applyExternalAssignment (assignment : List ExternalSpecInput) (a : ExternalAgent) :
    ExternalAgent :=
  match a.externalChecker with
  | none => a
  | some _ =>
    applyExternalAssignmentLocked env assignment none { a with lastAssignment := some assignment }

/-- The policy and the checker that a configuration describes. On a reload the checker of an
unchanged block is reused. -/
def buildProbes (cfg : ExternalCheckerConfig) (running : Option ExternalAgent) (id : Nat) :
    Except String (ExternalPolicy × Option ExternalChecker) :=
  if !cfg.enabled then .ok ({}, none)
  else
    match running.filter fun a => a.externalChecker.isSome ∧ cfg = a.cfg with
    | some a => .ok (a.external, a.externalChecker)
    | none =>
      match env.netip.newAllowlist (cfg.allowedCIDRs.getD []) (cfg.deniedCIDRs.getD []) with
      | .error err => .error ("checkers.external." ++ err)
      | .ok allowlist =>
        .ok ({ enabled := true, allowlist := some allowlist
               timeout := cfg.timeout, maxTargets := cfg.maxTargets },
          some (newExternalChecker id allowlist))

/-- An agent that starts has no assignment. -/
def new (node zone : String) (cfg : ExternalCheckerConfig) : Except String ExternalAgent :=
  match buildProbes env cfg none 0 with
  | .error err => .error err
  | .ok (external, externalChecker) => .ok { node, zone, cfg, external, externalChecker, built :=
    1 }

/-- The assignment moved onto a checker that was rebuilt, or retired when there is none. -/
def reconcileExternal (old : Option ExternalChecker) (a : ExternalAgent) : ExternalAgent :=
  if old.map (·.id) = a.externalChecker.map (·.id) then a
  else
    match a.externalChecker, a.lastAssignment with
    | none, _ =>
      { a with metrics := retireDepartedExternalTargets a.metrics old a.records []
               lastAssignment := none }
    | some _, some assignment => applyExternalAssignmentLocked env assignment old a
    | some _, none => a

/-- A reload. `others` is the error of the other checkers' blocks, which keeps everything as it
runs. -/
def applyConfig (next : ExternalCheckerConfig) (others : Option String) (a : ExternalAgent) :
    ExternalAgent :=
  match others, buildProbes env next (some a) a.built with
  | none, .ok (external, externalChecker) =>
    reconcileExternal env a.externalChecker
      { a with cfg := next, external, externalChecker, built := a.built + 1 }
  | _, _ => a

/-- The details that the checker in force still applies; without a checker there are none. -/
def assignedExternalOnly (a : ExternalAgent) (details : List ExternalDetails) :
    List ExternalDetails :=
  let assigned : List (String × CheckType) := match a.externalChecker with
    | none => []
    | some c => (c.counts a.records).map fun cnt => (cnt.name, cnt.type)
  details.filter fun d => (d.name, d.checkType) ∈ assigned

def deliver (details : List ExternalDetails) (a : ExternalAgent) : ExternalAgent :=
  { a with metrics :=
      (a.assignedExternalOnly details).foldl (recordExternalDetail a.node a.zone) a.metrics }

def adoptZone (zone : String) (a : ExternalAgent) : ExternalAgent :=
  if zone = a.zone then a
  else { a with metrics := a.metrics.retireSourceZone a.node a.zone, zone }

/-- The answer of one probe of a sweep. -/
inductive Probed where
  | ran (resolver : Resolver) (reply : Reply)
  | cancelled

/-- The detail that a probe leaves and the target's record after it. -/
def Probed.outcome (allowlist : Allowlist) (spec : ExternalSpec) (st : ExternalTargetState) :
    Probed → ExternalDetails × ExternalTargetState
  | ran resolver reply =>
    let detail := Checker.probe env.netip allowlist resolver reply spec
    (detail, st.record detail)
  | cancelled => (Checker.cancelled spec, st)

inductive Event where
  | assign (assignment : List ExternalSpecInput)
  | reload (next : ExternalCheckerConfig) (others : Option String)
  | adoptZone (zone : String)
  /-- The checker in force starts a sweep. -/
  | sweep (now : Int)
  /-- One target of one sweep is done. -/
  | probe (sweep slot : Nat) (answer : Probed)
  /-- A sweep whose targets are all done reports. -/
  | deliver (sweep : Nat)

def startSweep (now : Int) (a : ExternalAgent) : Option ExternalAgent :=
  a.externalChecker.map fun c =>
    let (slots, records) := c.due now a.records
    { a with records, sweeps := a.sweeps ++ [{ allowlist := c.allowlist, slots }] }

def finishProbe (sweep slot : Nat) (answer : Probed) (a : ExternalAgent) :
    Option ExternalAgent := do
  let s ← a.sweeps[sweep]?
  let target ← s.slots[slot]?
  if target.detail.isSome then none
  else
    let (detail, st) := answer.outcome env s.allowlist target.spec (a.records.getD target.entry {})
    let slots := s.slots.set slot { target with detail := some detail }
    some { a with records := a.records.set target.entry st
                  sweeps := a.sweeps.set sweep { s with slots } }

def report (sweep : Nat) (a : ExternalAgent) : Option ExternalAgent := do
  let s ← a.sweeps[sweep]?
  let details ← s.slots.mapM (·.detail)
  return deliver details { a with sweeps := a.sweeps.eraseIdx sweep }

def step (a : ExternalAgent) : Event → Option ExternalAgent
  | .assign assignment => some (a.applyExternalAssignment env assignment)
  | .reload next others => some (a.applyConfig env next others)
  | .adoptZone zone => some (a.adoptZone zone)
  | .sweep now => a.startSweep now
  | .probe sweep slot answer => a.finishProbe env sweep slot answer
  | .deliver sweep => a.report sweep

end ExternalAgent

end Kconmon.Agent
