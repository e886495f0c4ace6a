import Kconmon.Agent.ExternalChecks
import Kconmon.Checker.AllowlistSafety

/-!
# Which external gauges exist

A gauge belongs to a check, that is to the name of a target and a check type. Three views of the
checks have to agree for no gauge to outlive its check: what the outgoing checker applied, what the
incoming assignment names, and what the incoming checker applies. The first two are compared when
gauges are retired. The third is smaller than the second where two specs have one key, and the
gauges of the check in between stay.
-/
namespace Kconmon.Agent
open Lib Checker

/-! ## Gauges and checks -/

def ExternalLabels.check (l : ExternalLabels) : String × CheckType := (l.target, l.checkType)

namespace ExternalMetrics

/-- One of the two gauges exists under the labels. -/
def Gauged (m : ExternalMetrics) (l : ExternalLabels) : Prop :=
  l ∈ m.packetLoss ∨ l ∈ m.httpStatusCode

/-- The kind label is the one of the check type. -/
def Kinds (m : ExternalMetrics) : Prop := ∀ l, m.Gauged l → l.kind = externalTargetKind l.checkType

variable {m : ExternalMetrics} {l : ExternalLabels}

variable {labels : ExternalLabels}

@[simp, grind =] theorem gauged_add {c : ExternalCounter} :
    (m.add c labels).Gauged l ↔ m.Gauged l := Iff.rfl

@[simp, grind =] theorem gauged_insert_packetLoss {loss : Rat} :
    { m with packetLoss := m.packetLoss.insert labels loss }.Gauged l ↔ l = labels ∨ m.Gauged l :=
      by
  simp [Gauged, AList.mem_insert, or_assoc]

@[simp, grind =] theorem gauged_insert_httpStatusCode {code : Int} :
    { m with httpStatusCode := m.httpStatusCode.insert labels code }.Gauged l ↔
      l = labels ∨ m.Gauged l := by
  simp [Gauged, AList.mem_insert, or_left_comm]

@[simp, grind =] theorem gauged_forgetGauges {labels : ExternalLabels → Bool} :
    (m.forgetGauges labels).Gauged l ↔ m.Gauged l ∧ labels l = false := by
  simp only [Gauged, forgetGauges, GoMap.mem_sieveKeys, Bool.not_eq_true']
  tauto

@[simp, grind =] theorem gauged_retireCounters {labels : ExternalLabels → Bool} :
    (m.retireCounters labels).Gauged l ↔ m.Gauged l := Iff.rfl

@[simp, grind =] theorem gauged_retireExternalTarget {target : String} :
    (m.retireExternalTarget target).Gauged l ↔ m.Gauged l ∧ l.target ≠ target := by
  simp [retireExternalTarget]

@[simp, grind =] theorem gauged_forgetExternalCheck {target : String} {kind : TargetKind}
    {checkType : CheckType} : (m.forgetExternalCheck target kind checkType).Gauged l ↔
      m.Gauged l ∧ ¬ (l.target = target ∧ l.kind = kind ∧ l.checkType = checkType) := by
  simp [forgetExternalCheck]

theorem Gauged.of_retireSourceZone {node zone : String}
    (gauged : (m.retireSourceZone node zone).Gauged l) : m.Gauged l := by
  rw [retireSourceZone, gauged_retireCounters, gauged_forgetGauges] at gauged
  exact gauged.1

end ExternalMetrics

/-- A probed target writes no gauge but its own. -/
theorem gauged_recordExternalDetail {node zone : String} {m : ExternalMetrics}
    {d : ExternalDetails} {l : ExternalLabels}
    (gauged : (recordExternalDetail node zone m d).Gauged l) : m.Gauged l ∨
      (l.check = (d.name, d.checkType) ∧ l.kind = externalTargetKind l.checkType) := by
  have own : l = ⟨node, zone, d.name, externalTargetKind d.checkType, d.checkType⟩ →
      l.check = (d.name, d.checkType) ∧ l.kind = externalTargetKind l.checkType := by
    rintro rfl
    exact ⟨rfl, rfl⟩
  simp only [recordExternalDetail] at gauged
  split_ifs at gauged <;> grind

/-! ## Retirement -/

namespace Retirement

variable {keepName : List String} {keepCheck : List (String × CheckType)} {r : Retirement}
  {c : ExternalCount} {l : ExternalLabels}

/-- What was retired once has no gauges left. -/
structure Sound (r : Retirement) : Prop where
  kinds : r.metrics.Kinds
  names : ∀ l, r.metrics.Gauged l → l.target ∉ r.seenName
  checks : ∀ l, r.metrics.Gauged l → l.check ∉ r.seenCheck

/-- The gauges under `l` go when the applied check `c` is visited. -/
def Leaves (keepName : List String) (keepCheck : List (String × CheckType)) (c : ExternalCount)
    (l : ExternalLabels) : Prop :=
  if c.name ∈ keepName then c.check ∉ keepCheck ∧ l.check = c.check else l.target = c.name

theorem gauged_visit (sound : r.Sound) : (r.visit keepName keepCheck c).metrics.Gauged l ↔
    r.metrics.Gauged l ∧ ¬ Leaves keepName keepCheck c l := by
  have kind := sound.kinds l
  have names := sound.names l
  have checks := sound.checks l
  simp only [visit, Leaves]
  split_ifs <;> grind [ExternalLabels.check, ExternalCount.check]

theorem Sound.visit (sound : r.Sound) : (r.visit keepName keepCheck c).Sound := by
  have before : ∀ l, (r.visit keepName keepCheck c).metrics.Gauged l → r.metrics.Gauged l :=
    fun l gauged => ((gauged_visit sound).mp gauged).1
  refine ⟨fun l gauged => sound.kinds l (before l gauged), fun l gauged => ?_, fun l gauged => ?_⟩
  · have old := sound.names l (before l gauged)
    have stays := ((gauged_visit sound).mp gauged).2
    simp only [Retirement.visit, Leaves] at stays ⊢
    split_ifs <;> grind
  · have old := sound.checks l (before l gauged)
    have stays := ((gauged_visit sound).mp gauged).2
    simp only [Retirement.visit, Leaves] at stays ⊢
    split_ifs <;> grind [ExternalCount.check]

theorem gauged_foldl_visit (sound : r.Sound) (applied : List ExternalCount) :
    (applied.foldl (visit keepName keepCheck) r).metrics.Gauged l ↔
      r.metrics.Gauged l ∧ ∀ c ∈ applied, ¬ Leaves keepName keepCheck c l := by
  induction applied generalizing r with
  | nil => simp
  | cons c applied ih =>
    rw [List.foldl_cons, ih sound.visit, gauged_visit sound]
    simp [and_assoc]

end Retirement

/-- Where every gauge is of a check that was applied, those of the incoming checks remain. -/
theorem gauged_retireDeparted {m : ExternalMetrics} {c : ExternalChecker} {records : Records}
    {next : List ExternalSpec} {l : ExternalLabels} (kinds : m.Kinds)
    (applied : m.Gauged l → ∃ spec ∈ c.specs, spec.check = l.check) :
    (retireDepartedExternalTargets m (some c) records next).Gauged l ↔
      m.Gauged l ∧ ∃ spec ∈ next, spec.check = l.check := by
  have start : Retirement.Sound { metrics := m } := ⟨kinds, by simp, by simp⟩
  rw [retireDepartedExternalTargets, Retirement.gauged_foldl_visit start]
  refine and_congr_right fun gauged => ?_
  have counted : l.check ∈ (c.counts records).map ExternalCount.check := by
    rw [c.map_check_counts]
    exact List.mem_map.mpr (applied gauged)
  obtain ⟨cnt, held, same⟩ := List.mem_map.mp counted
  constructor
  · intro stays
    have kept := stays cnt held
    simp only [Retirement.Leaves, same] at kept
    grind [ExternalLabels.check, ExternalCount.check, ExternalSpec.check]
  · rintro ⟨spec, incoming, sameCheck⟩ cnt held leaves
    simp only [Retirement.Leaves] at leaves
    grind [ExternalLabels.check, ExternalCount.check, ExternalSpec.check]

namespace ExternalAgent

/-! ## The condition -/

/-- Gauges exist only for checks that the checker in force applies. -/
def InForce (a : ExternalAgent) : Prop := ∀ l, a.metrics.Gauged l →
    ∃ c, a.externalChecker = some c ∧ ∃ spec ∈ c.specs, spec.check = l.check

/-- A check that comes in and has a gauge is the check of a spec that is the first of its key. -/
def Carried (a : ExternalAgent) (incoming : List ExternalSpec) : Prop :=
  ∀ spec ∈ incoming, (∃ l, a.metrics.Gauged l ∧ l.check = spec.check) →
    ∃ first, IsFirst externalStateKey incoming first ∧ first.check = spec.check

section Conditions

variable (env : Env)

/-- The specs of an assignment that are valid, up to the ceiling. -/
def accepted (maxTargets : Int) (assignment : List ExternalSpecInput) : List ExternalSpec :=
  truncate maxTargets
    (assignment.filterMap fun input => (env.readers.parseExternalSpec input).toOption)

/-- The reload puts a new checker in force. -/
def Replaces (a : ExternalAgent) (next : ExternalCheckerConfig) (others : Option String) : Prop :=
  others = none ∧ next.enabled ∧ ¬ (a.externalChecker.isSome ∧ next = a.cfg) ∧
    ∃ allowlist, env.netip.newAllowlist (next.allowedCIDRs.getD []) (next.deniedCIDRs.getD []) =
      .ok allowlist

/-- What an assignment, or a reload that hands the last one on, has to meet. -/
def Covered (a : ExternalAgent) : Event → Prop
  | .assign assignment => a.Carried (accepted env a.external.maxTargets assignment)
  | .reload next others => a.Replaces env next others →
      ∀ assignment, a.lastAssignment = some assignment →
        a.Carried (accepted env next.maxTargets assignment)
  | .adoptZone _ | .sweep _ | .probe _ _ _ | .deliver _ => True

end Conditions

/-- What every step keeps. -/
structure Sound (a : ExternalAgent) : Prop where
  kinds : a.metrics.Kinds
  numbered : ∀ c, a.externalChecker = some c → c.id < a.built
  unassigned : a.lastAssignment = none → ∀ c, a.externalChecker = some c → c.specs = []

variable {env : Env} {a b : ExternalAgent} {e : Event} {l : ExternalLabels}

/-! ## Assignments -/

theorem parseAssignment_spec (env : Env) (node : String) (m : ExternalMetrics)
    (assignment : List ExternalSpecInput) : (parseAssignment env node m assignment).1 =
      assignment.filterMap (fun input => (env.readers.parseExternalSpec input).toOption) ∧
    ∀ l, (parseAssignment env node m assignment).2.Gauged l ↔ m.Gauged l := by
  induction assignment using List.reverseRecOn with
  | nil => exact ⟨rfl, fun l => Iff.rfl⟩
  | append_singleton assignment input ih =>
    obtain ⟨parsed, gauged⟩ := ih
    simp only [parseAssignment, List.foldl_append, List.foldl_cons, List.foldl_nil,
      List.filterMap_append] at parsed gauged ⊢
    cases read : env.readers.parseExternalSpec input with
    | ok spec => exact ⟨by simp [parsed, read, Except.toOption], gauged⟩
    | error err => exact ⟨by simp [parsed, read, Except.toOption], gauged⟩

section Apply

variable {c outgoing : ExternalChecker} {retireFrom : Option ExternalChecker}

theorem applyLocked_eq (env : Env) (assignment : List ExternalSpecInput)
    (current : a.externalChecker = some c) (counted : retireFrom.or (some c) = some outgoing) :
    ∃ m, (∀ l, m.Gauged l ↔ a.metrics.Gauged l) ∧
      applyExternalAssignmentLocked env assignment retireFrom a =
        { a with
          externalChecker :=
            some (c.setSpecs (accepted env a.external.maxTargets assignment) a.records).1
          records := (c.setSpecs (accepted env a.external.maxTargets assignment) a.records).2
          metrics := retireDepartedExternalTargets m (some outgoing) a.records
            (accepted env a.external.maxTargets assignment) } := by
  obtain ⟨parsed, gauged⟩ := parseAssignment_spec env a.node a.metrics assignment
  refine ⟨_, gauged, ?_⟩
  simp only [applyExternalAssignmentLocked, current, counted, parsed, accepted]

/-- Every gauge being of a check that the outgoing checker applied, the assignment is applied
without leaving one behind exactly if it carries its checks. -/
theorem inForce_applyLocked {assignment : List ExternalSpecInput} (kinds : a.metrics.Kinds)
    (current : a.externalChecker = some c) (counted : retireFrom.or (some c) = some outgoing)
    (applied : ∀ l, a.metrics.Gauged l → ∃ spec ∈ outgoing.specs, spec.check = l.check) :
    (applyExternalAssignmentLocked env assignment retireFrom a).InForce ↔
      a.Carried (accepted env a.external.maxTargets assignment) := by
  obtain ⟨m, gauged, outcome⟩ := applyLocked_eq env assignment current counted
  have kinds' : m.Kinds := fun l h => kinds l ((gauged l).mp h)
  have left : ∀ l, (retireDepartedExternalTargets m (some outgoing) a.records
      (accepted env a.external.maxTargets assignment)).Gauged l ↔ a.metrics.Gauged l ∧
        ∃ spec ∈ accepted env a.external.maxTargets assignment, spec.check = l.check := by
    intro l
    rw [gauged_retireDeparted kinds' fun h => applied l ((gauged l).mp h), gauged]
  simp only [outcome, InForce, Carried, left, Option.some.injEq, exists_eq_left',
    ExternalChecker.mem_setSpecs]
  constructor
  · rintro inForce spec held ⟨l, gauge, same⟩
    obtain ⟨first, isFirst, sameFirst⟩ := inForce l ⟨gauge, spec, held, same.symm⟩
    exact ⟨first, isFirst, sameFirst.trans same⟩
  · rintro carried l ⟨gauge, spec, held, same⟩
    obtain ⟨first, isFirst, sameFirst⟩ := carried spec held ⟨l, gauge, same.symm⟩
    exact ⟨first, isFirst, sameFirst.trans same⟩

theorem Sound.applyLocked (sound : a.Sound) {assignment : List ExternalSpecInput}
    (assigned : a.lastAssignment ≠ none) (current : a.externalChecker = some c)
    (counted : retireFrom.or (some c) = some outgoing)
    (applied : ∀ l, a.metrics.Gauged l → ∃ spec ∈ outgoing.specs, spec.check = l.check) :
    (applyExternalAssignmentLocked env assignment retireFrom a).Sound := by
  obtain ⟨m, gauged, outcome⟩ := applyLocked_eq env assignment current counted
  have kinds' : m.Kinds := fun l h => sound.kinds l ((gauged l).mp h)
  rw [outcome]
  refine ⟨fun l h => ?_, ?_, fun unassigned => absurd unassigned assigned⟩
  · rw [gauged_retireDeparted kinds' fun h => applied l ((gauged l).mp h)] at h
    exact kinds' l h.1
  · rintro _ ⟨⟩
    exact sound.numbered c current

end Apply

theorem InForce.applied (inForce : a.InForce) {c : ExternalChecker}
    (current : a.externalChecker = some c) (gauge : a.metrics.Gauged l) :
    ∃ spec ∈ c.specs, spec.check = l.check := by
  obtain ⟨c', current', held⟩ := inForce l gauge
  obtain rfl : c = c' := by simpa [current] using current'
  exact held

theorem InForce.not_gauged (inForce : a.InForce)
    (unapplied : ∀ c, a.externalChecker = some c → c.specs = []) : ¬ a.metrics.Gauged l := by
  intro gauge
  obtain ⟨c, current, spec, held, -⟩ := inForce l gauge
  simp [unapplied c current] at held

theorem applyExternalAssignment_spec (sound : a.Sound) (inForce : a.InForce)
    (assignment : List ExternalSpecInput) : (a.applyExternalAssignment env assignment).Sound ∧
      ((a.applyExternalAssignment env assignment).InForce ↔
        a.Carried (accepted env a.external.maxTargets assignment)) := by
  unfold applyExternalAssignment
  split
  · rename_i off
    have bare : ∀ l, ¬ a.metrics.Gauged l := fun l =>
      inForce.not_gauged fun c current => by simp [off] at current
    refine ⟨sound, iff_of_true inForce ?_⟩
    rintro spec - ⟨l, gauge, -⟩
    exact absurd gauge (bare l)
  · rename_i c current
    let a' := { a with lastAssignment := some assignment }
    have sound' : a'.Sound := ⟨sound.kinds, sound.numbered, by simp [a']⟩
    have applied : ∀ l, a'.metrics.Gauged l → ∃ spec ∈ c.specs, spec.check = l.check :=
      fun l gauge => inForce.applied current gauge
    exact ⟨sound'.applyLocked (by simp [a']) current rfl applied,
      inForce_applyLocked sound.kinds current rfl applied⟩

/-! ## Reloads -/

/-- A reload leaves the checker in force, takes it away, or replaces it. -/
inductive Reloaded (env : Env) (a : ExternalAgent) (next : ExternalCheckerConfig)
    (others : Option String) : ExternalAgent → Prop where
  | kept (stays : ¬ a.Replaces env next others) (cfg : ExternalCheckerConfig)
      (external : ExternalPolicy) (built : Nat) (grown : a.built ≤ built) :
      Reloaded env a next others { a with cfg, external, built }
  | removed (stays : ¬ a.Replaces env next others) (c : ExternalChecker)
      (current : a.externalChecker = some c) (built : Nat) : Reloaded env a next others
        { a with
          cfg := next, external := {}, externalChecker := none, lastAssignment := none, built
          metrics := retireDepartedExternalTargets a.metrics (some c) a.records [] }
  | replaced (replaces : a.Replaces env next others) (allowlist : Allowlist)
      (external : ExternalPolicy) (ceiling : external.maxTargets = next.maxTargets) :
      Reloaded env a next others
        (reconcileExternal env a.externalChecker
          { a with
            cfg := next, external, externalChecker := some (newExternalChecker a.built allowlist)
            built := a.built + 1 })

/-- A reload builds what a start does, unless it reuses the checker in force. -/
theorem buildProbes_running (env : Env) (a : ExternalAgent) (next : ExternalCheckerConfig)
    (id : Nat) : buildProbes env next (some a) id =
      if next.enabled ∧ a.externalChecker.isSome ∧ next = a.cfg then
        .ok (a.external, a.externalChecker)
      else buildProbes env next none id := by
  unfold buildProbes
  by_cases same : a.externalChecker.isSome ∧ next = a.cfg
  · cases on : next.enabled <;> simp [Option.filter_some, same.1, ← same.2]
  · simp [Option.filter_some, same]

theorem reloaded (env : Env) (a : ExternalAgent) (next : ExternalCheckerConfig)
    (others : Option String) : Reloaded env a next others (a.applyConfig env next others) := by
  cases others with
  | some err => exact .kept (by simp [Replaces]) a.cfg a.external a.built le_rfl
  | none =>
    have built := buildProbes_running env a next a.built
    split_ifs at built with same
    · have stays : ¬ a.Replaces env next none := fun replaces => replaces.2.2.1 same.2
      have kept : Reloaded env a next none { a with cfg := next, built := a.built + 1 } :=
        .kept stays next a.external (a.built + 1) (by omega)
      simpa [applyConfig, built, reconcileExternal] using kept
    · cases on : next.enabled with
      | false =>
        have stays : ¬ a.Replaces env next none := by simp [Replaces, on]
        cases current : a.externalChecker with
        | none =>
          have kept : Reloaded env a next none
              { a with cfg := next, external := {}, built := a.built + 1 } :=
            .kept stays next {} (a.built + 1) (by omega)
          simpa [applyConfig, built, buildProbes, on, reconcileExternal, current] using kept
        | some c =>
          have removed := Reloaded.removed stays c current (a.built + 1)
          simpa [applyConfig, built, buildProbes, on, reconcileExternal, current] using removed
      | true =>
        have differs : ¬ (a.externalChecker.isSome ∧ next = a.cfg) := by simpa [on] using same
        cases read : env.netip.newAllowlist (next.allowedCIDRs.getD [])
            (next.deniedCIDRs.getD []) with
        | error err =>
          have stays : ¬ a.Replaces env next none := by simp [Replaces, read]
          have kept : Reloaded env a next none a := .kept stays a.cfg a.external a.built le_rfl
          have fails : buildProbes env next none a.built = .error ("checkers.external." ++ err) :=
            by
            simp [buildProbes, on, read]
          simpa [applyConfig, built, fails] using kept
        | ok allowlist =>
          let policy : ExternalPolicy :=
            { enabled := true, allowlist := some allowlist
              timeout := next.timeout, maxTargets := next.maxTargets }
          have replaced :=
            Reloaded.replaced ⟨rfl, on, differs, allowlist, read⟩ allowlist policy rfl
          have makes : buildProbes env next none a.built =
              .ok (policy, some (newExternalChecker a.built allowlist)) := by
            simp [buildProbes, on, read, policy]
          simpa [applyConfig, built, makes] using replaced

/-- A checker that was just built has a number of its own, so the assignment moves onto it. -/
theorem reconcile_replaced (env : Env) (sound : a.Sound) {allowlist : Allowlist}
    (current : b.externalChecker = some (newExternalChecker a.built allowlist)) :
    reconcileExternal env a.externalChecker b =
      b.lastAssignment.elim b fun assignment =>
        applyExternalAssignmentLocked env assignment a.externalChecker b := by
  have differ : a.externalChecker.map (·.id) ≠ b.externalChecker.map (·.id) := by
    cases before : a.externalChecker with
    | none => simp [current]
    | some c =>
      have older := sound.numbered c before
      simp only [current, Option.map_some, newExternalChecker, ne_eq, Option.some.injEq]
      omega
  rw [reconcileExternal, if_neg differ, current]
  cases b.lastAssignment <;> rfl

/-- The checker that departures are counted from has applied every check with a gauge. -/
theorem InForce.outgoing (inForce : a.InForce) (new : ExternalChecker) :
    ∃ outgoing, a.externalChecker.or (some new) = some outgoing ∧
      ∀ l, a.metrics.Gauged l → ∃ spec ∈ outgoing.specs, spec.check = l.check := by
  cases current : a.externalChecker with
  | some c => exact ⟨c, rfl, fun l gauge => inForce.applied current gauge⟩
  | none =>
    refine ⟨new, rfl, fun l gauge => ?_⟩
    exact absurd gauge (inForce.not_gauged fun c held => by simp [current] at held)

theorem reconcile_spec (sound : a.Sound) (inForce : a.InForce) {next : ExternalCheckerConfig}
    {others : Option String} (replaces : a.Replaces env next others) (allowlist : Allowlist)
    {external : ExternalPolicy} (ceiling : external.maxTargets = next.maxTargets) :
    let a' : ExternalAgent :=
      { a with
        cfg := next, external, externalChecker := some (newExternalChecker a.built allowlist)
        built := a.built + 1 }
    (reconcileExternal env a.externalChecker a').Sound ∧
      ((reconcileExternal env a.externalChecker a').InForce ↔
        a.Covered env (.reload next others)) := by
  intro a'
  have sound' : a'.Sound := by
    refine ⟨sound.kinds, ?_, ?_⟩
    · rintro _ ⟨⟩
      exact Nat.lt_succ_self _
    · rintro - _ ⟨⟩
      rfl
  have moves : reconcileExternal env a.externalChecker a' = _ := reconcile_replaced env sound rfl
  rcases Option.eq_none_or_eq_some a.lastAssignment with last | ⟨assignment, last⟩
  · have bare : ∀ l, ¬ a.metrics.Gauged l := fun l => inForce.not_gauged (sound.unassigned last)
    have covered : a.Covered env (.reload next others) := by simp [Covered, last]
    have same : reconcileExternal env a.externalChecker a' = a' := moves.trans (by simp [a', last])
    rw [same]
    exact ⟨sound', iff_of_true (fun l gauge => absurd gauge (bare l)) covered⟩
  · obtain ⟨outgoing, counted, applied⟩ := inForce.outgoing (newExternalChecker a.built allowlist)
    have handed : reconcileExternal env a.externalChecker a' =
        applyExternalAssignmentLocked env assignment a.externalChecker a' :=
      moves.trans (by simp [a', last])
    have carried : (applyExternalAssignmentLocked env assignment a.externalChecker a').InForce ↔
        a'.Carried (accepted env external.maxTargets assignment) :=
      inForce_applyLocked sound'.kinds rfl counted applied
    have covered : a.Covered env (.reload next others) ↔
        a.Carried (accepted env external.maxTargets assignment) := by
      simp only [Covered, last, Option.some.injEq, forall_eq', replaces, forall_const, ceiling]
    have assigned : a'.lastAssignment ≠ none := by simp [a', last]
    rw [handed]
    exact ⟨sound'.applyLocked assigned rfl counted applied, carried.trans covered.symm⟩

theorem applyConfig_spec (sound : a.Sound) (inForce : a.InForce) (next : ExternalCheckerConfig)
    (others : Option String) : (a.applyConfig env next others).Sound ∧
      ((a.applyConfig env next others).InForce ↔ a.Covered env (.reload next others)) := by
  have reload := reloaded env a next others
  generalize a.applyConfig env next others = b at reload
  cases reload with
  | kept stays cfg external built grown =>
    have sound' : Sound { a with cfg, external, built } :=
      ⟨sound.kinds, fun c current => by have := sound.numbered c current; dsimp only; omega,
        sound.unassigned⟩
    exact ⟨sound', iff_of_true inForce fun replaces => absurd replaces stays⟩
  | removed stays c current built =>
    have bare : ∀ l, ¬ (retireDepartedExternalTargets a.metrics (some c) a.records []).Gauged l :=
      by
      intro l gauge
      rw [gauged_retireDeparted sound.kinds fun h => inForce.applied current h] at gauge
      simp at gauge
    exact ⟨⟨fun l gauge => absurd gauge (bare l), by simp, by simp⟩,
      iff_of_true (fun l gauge => absurd gauge (bare l)) fun replaces => absurd replaces stays⟩
  | replaced replaces allowlist external ceiling =>
    exact reconcile_spec sound inForce replaces allowlist ceiling

/-! ## Sweeps -/

theorem mem_assignedExternalOnly {details : List ExternalDetails} {d : ExternalDetails}
    (assigned : d ∈ a.assignedExternalOnly details) :
    ∃ c, a.externalChecker = some c ∧ ∃ spec ∈ c.specs, spec.check = (d.name, d.checkType) := by
  rw [assignedExternalOnly, List.mem_filter] at assigned
  cases current : a.externalChecker with
  | none => simp [current] at assigned
  | some c =>
    have counted : (d.name, d.checkType) ∈ (c.counts a.records).map ExternalCount.check := by
      simpa [current, ExternalCount.check] using assigned.2
    rw [c.map_check_counts] at counted
    exact ⟨c, rfl, List.mem_map.mp counted⟩

/-- A delivery writes gauges of applied checks only, whenever its sweep started. -/
theorem Sound.deliver (sound : a.Sound) (inForce : a.InForce) (details : List ExternalDetails) :
    (a.deliver details).Sound ∧ (a.deliver details).InForce := by
  have written : (a.deliver details).metrics.Kinds ∧ (a.deliver details).InForce := by
    refine foldl_invariant (I := fun m => m.Kinds ∧ InForce { a with metrics := m })
      ⟨sound.kinds, inForce⟩ ?_
    rintro m d held ⟨kinds, before⟩
    refine ⟨fun l gauge => ?_, fun l gauge => ?_⟩
    · rcases gauged_recordExternalDetail gauge with old | ⟨-, kind⟩
      · exact kinds l old
      · exact kind
    · rcases gauged_recordExternalDetail gauge with old | ⟨same, -⟩
      · exact before l old
      · rw [same]
        exact mem_assignedExternalOnly held
  exact ⟨⟨written.1, sound.numbered, sound.unassigned⟩, written.2⟩

/-- What the steps of a sweep leave alone. -/
theorem Sound.frame (sound : a.Sound) (inForce : a.InForce) (records : Records)
    (sweeps : List Sweep) : Sound { a with records, sweeps } ∧ InForce { a with records, sweeps } :=
  ⟨⟨sound.kinds, sound.numbered, sound.unassigned⟩, inForce⟩

theorem Sound.adoptZone (sound : a.Sound) (inForce : a.InForce) (zone : String) :
    (a.adoptZone zone).Sound ∧ (a.adoptZone zone).InForce := by
  unfold ExternalAgent.adoptZone
  split
  · exact ⟨sound, inForce⟩
  · exact ⟨⟨fun l gauge => sound.kinds l gauge.of_retireSourceZone, sound.numbered,
      sound.unassigned⟩, fun l gauge => inForce l gauge.of_retireSourceZone⟩

theorem step_spec (sound : a.Sound) (inForce : a.InForce) (taken : a.step env e = some b) :
    b.Sound ∧ (b.InForce ↔ a.Covered env e) := by
  have always : b.Sound ∧ b.InForce → a.Covered env e → b.Sound ∧ (b.InForce ↔ a.Covered env e) :=
    fun kept covered => ⟨kept.1, iff_of_true kept.2 covered⟩
  cases e with
  | assign assignment =>
    obtain rfl : _ = b := by simpa [step] using taken
    exact applyExternalAssignment_spec sound inForce assignment
  | reload next others =>
    obtain rfl : _ = b := by simpa [step] using taken
    exact applyConfig_spec sound inForce next others
  | adoptZone zone =>
    obtain rfl : _ = b := by simpa [step] using taken
    exact always (sound.adoptZone inForce zone) trivial
  | sweep now =>
    obtain ⟨c, -, rfl⟩ := Option.map_eq_some_iff.mp taken
    exact always (sound.frame inForce _ _) trivial
  | probe sweep slot answer =>
    simp only [step, finishProbe, Option.bind_eq_bind, Option.bind_eq_some_iff] at taken
    obtain ⟨s, -, target, -, taken⟩ := taken
    split at taken <;> cases taken
    exact always (sound.frame inForce _ _) trivial
  | deliver sweep =>
    simp only [step, report, Option.bind_eq_bind, Option.bind_eq_some_iff] at taken
    obtain ⟨s, -, details, -, taken⟩ := taken
    cases taken
    obtain ⟨sound', inForce'⟩ := sound.frame inForce a.records (a.sweeps.eraseIdx sweep)
    exact always (sound'.deliver inForce' details) trivial

/-- Specs of distinct keys are all applied. -/
theorem covered_of_distinct {assignment : List ExternalSpecInput}
    (distinct : ((assignment.filterMap fun input =>
      (env.readers.parseExternalSpec input).toOption).map externalStateKey).Nodup) :
    a.Covered env (.assign assignment) := by
  have part : (accepted env a.external.maxTargets assignment).Sublist
      (assignment.filterMap fun input => (env.readers.parseExternalSpec input).toOption) := by
    unfold accepted truncate
    split
    · exact List.take_sublist _ _
    · exact List.Sublist.refl _
  intro spec held _
  exact ⟨spec, isFirst_of_nodup (distinct.sublist (part.map externalStateKey)) held, rfl⟩

theorem covered_of_blocked (blocked : a.step env e = none) : a.Covered env e := by
  cases e with
  | assign assignment => simp [step] at blocked
  | reload next others => simp [step] at blocked
  | adoptZone zone => trivial
  | sweep now => trivial
  | probe sweep slot answer => trivial
  | deliver sweep => trivial

/-! ## Runs -/

theorem buildProbes_start {cfg : ExternalCheckerConfig} {id : Nat} {external : ExternalPolicy}
    {c : ExternalChecker} (made : buildProbes env cfg none id = .ok (external, some c)) :
    ∃ allowlist, c = newExternalChecker id allowlist := by
  simp only [buildProbes, Option.filter_none] at made
  split at made
  · simp at made
  · split at made
    · cases made
    · rename_i allowlist read
      simp only [Except.ok.injEq, Prod.mk.injEq, Option.some.injEq] at made
      exact ⟨allowlist, made.2.symm⟩

theorem new_spec {node zone : String} {cfg : ExternalCheckerConfig}
    (started : new env node zone cfg = .ok a) : a.Sound ∧ a.InForce := by
  unfold new at started
  split at started <;> cases started
  rename_i external checker made
  have bare : ∀ l, ¬ ExternalMetrics.Gauged {} l := by simp [ExternalMetrics.Gauged]
  refine ⟨⟨fun l gauge => absurd gauge (bare l), ?_, ?_⟩, fun l gauge => absurd gauge (bare l)⟩
  · rintro c rfl
    obtain ⟨allowlist, rfl⟩ := buildProbes_start made
    exact Nat.zero_lt_one
  · rintro - c rfl
    obtain ⟨allowlist, rfl⟩ := buildProbes_start made
    rfl

/-- After every step of a run the gauges are those of checks in force, exactly if every assignment,
and every reload that hands one on, carries the checks that have a gauge. -/
theorem gauges_in_force_iff {node zone : String} {cfg : ExternalCheckerConfig}
    (started : new env node zone cfg = .ok a) (run : List Event) :
    EachStep (step env) (fun a e => ∀ b, a.step env e = some b → b.InForce) a run ↔
      EachStep (step env) (Covered env) a run := by
  refine eachStep_iff (I := fun a => a.Sound ∧ a.InForce) (new_spec started) ?_ ?_ run
  · rintro a e ⟨sound, inForce⟩
    cases taken : a.step env e with
    | none => exact iff_of_true (fun b other => by cases other) (covered_of_blocked taken)
    | some b => simpa using (step_spec sound inForce taken).2
  · rintro a e b ⟨sound, inForce⟩ covered taken
    obtain ⟨sound', carried⟩ := step_spec sound inForce taken
    exact ⟨sound', carried.mpr covered⟩

/-- Readers that take every range for `10.0.0.0/8` and every host for `10.0.0.1`. -/
def oneHost : Env where
  netip :=
    { parseAddr := fun _ => some (.v4 0x0a000001#32)
      parsePrefix := fun _ => tenOnly.parsePrefix "10.0.0.0/8"
      quote := id }
  readers :=
    { empty := ⟨fun _ v => (v, none), fun _ v => .ok v⟩
      http := ⟨fun _ v => (v, none), fun _ v => .ok v⟩
      dns := ⟨fun _ v => (v, none), fun _ v => .ok v⟩
      parseURL := fun _ => none
      quote := id }

def optedIn : ExternalCheckerConfig :=
  { enabled := true, allowedCIDRs := some ["10.0.0.0/8"], maxTargets := 100 }

/-- The check `api` is assigned, probed and reported. -/
def apiProbed : List Event :=
  [.assign [⟨"d1", "api", "10.0.0.1", 0, "icmp", 30000000000, 0, ""⟩],
    .sweep 0, .probe 0 0 (.ran (fun _ => none) {}), .deliver 0]

/-- The next assignment names `db` and `api`, under the definitions given. -/
def dbAndApi (db api : String) : Event :=
  .assign [⟨db, "db", "10.0.0.1", 0, "tcp", 30000000000, 0, ""⟩,
    ⟨api, "api", "10.0.0.1", 0, "icmp", 30000000000, 0, ""⟩]

theorem optedIn_starts : ∃ a, new oneHost "node-a" "zone-a" optedIn = .ok a := ⟨_, rfl⟩

/-- Under two definitions the gauge of `api` is that of a check in force. -/
theorem gauges_in_force_iff_distinct : ∃ a, new oneHost "node-a" "zone-a" optedIn = .ok a ∧
      EachStep (step oneHost) (fun a e => ∀ b, a.step oneHost e = some b → b.InForce) a
        (apiProbed ++ [dbAndApi "d2" "d3"]) := by
  obtain ⟨a, started⟩ := optedIn_starts
  refine ⟨a, started, (gauges_in_force_iff started _).mpr ?_⟩
  exact ⟨covered_of_distinct (by decide +kernel), fun _ _ => ⟨trivial, fun _ _ => ⟨trivial,
    fun _ _ => ⟨trivial, fun _ _ =>
      ⟨covered_of_distinct (by decide +kernel), fun _ _ => trivial⟩⟩⟩⟩⟩

/-- Under one definition the checker applies `db` alone, and the gauge of `api` is still there. -/
theorem gauge_left_behind :
    ((new oneHost "node-a" "zone-a" optedIn).toOption.bind fun a =>
      (exec (step oneHost) a (apiProbed ++ [dbAndApi "d2" "d2"])).map fun b =>
        (b.metrics.packetLoss.keys.map ExternalLabels.check,
          b.externalChecker.map fun c => c.specs.map ExternalSpec.check)) =
      some ([("api", .icmp)], some [("db", .tcp)]) := by
  decide +kernel

theorem gauge_outlives_check : ∃ a, new oneHost "node-a" "zone-a" optedIn = .ok a ∧
      ¬ EachStep (step oneHost) (fun a e => ∀ b, a.step oneHost e = some b → b.InForce) a
        (apiProbed ++ [dbAndApi "d2" "d2"]) := by
  obtain ⟨a, started⟩ := optedIn_starts
  have left := gauge_left_behind
  rw [started] at left
  obtain ⟨b, run, left⟩ := Option.map_eq_some_iff.mp left
  obtain ⟨gauges, applied⟩ := Prod.mk.inj left
  refine ⟨a, started, fun along => ?_⟩
  have inForce : b.InForce := along.of_exec (by simp) run
  obtain ⟨l, keys, check⟩ := List.map_eq_singleton_iff.mp gauges
  have gauge : b.metrics.Gauged l := .inl (AList.mem_keys.mpr (by simp [keys]))
  obtain ⟨c, current, spec, held, same⟩ := inForce l gauge
  have listed : spec.check ∈ c.specs.map ExternalSpec.check := List.mem_map_of_mem held
  rw [current, Option.map_some, Option.some.injEq] at applied
  rw [applied, same, check] at listed
  simp at listed

end ExternalAgent

end Kconmon.Agent
