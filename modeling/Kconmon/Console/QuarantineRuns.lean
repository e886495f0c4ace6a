import Kconmon.Console.Quarantine

/-!
# Convergence of the quarantine

The rules the cluster never takes are offered again in every pass. Eight of them therefore hide a
good rule listed behind them for good, and more than eight of them, with no good rule beside them,
keep a stale bundle alive. When nothing is hidden like that, the passes converge.
-/
namespace Kconmon.Console.PromRules
open Lib

/-- The live bundle is made up of the acceptable rules, and the statuses say which these are. -/
structure Converged {R : Renderer} (S : RuleSet R) (ok : Entry → Bool) (w : World) : Prop where
  live : (((w.live.map Object.entries).getD []).map some).Perm
    ((S.rules.filter (R.fine ok)).map R.entryOf)
  synced : ∀ r ∈ S.rules, R.fine ok r = true → w.statusOf r.id = some .synced
  error : ∀ r ∈ S.rules, R.fine ok r = false → ∃ reason, w.statusOf r.id = some (.error reason)

section Runs

variable {R : Renderer} {S : RuleSet R} {ok : Entry → Bool} {reject : ApiError} {w : World}
  {stored : Object} {bundle : GoMap String String}

section
variable (content : isContentRejection reject = true) (other : classify reject = .other)
  (refused : S.rules.all (R.fine ok) = false)
include content other refused

section
variable (holding : Holding R ok w stored bundle)
include holding

/-- As long as the bundle is refused and not deleted, the passes are rounds. -/
theorem Holding.passes
    (usable : S.rules.any (R.fine ok) = true ∨ quarantineProbeLimit < S.rules.length) (n : Nat) :
    ∃ stored' bundle', Holding R ok ((S.pass ok reject)^[n] w) stored' bundle' ∧
      (S.rules.any (R.fine ok) = false → stored' = stored) ∧ ∀ r ∈ S.rules, R.deployedAs bundle' r =
        (Rounds.round S.rules (R.fine ok) quarantineProbeLimit)^[n] (R.deployedAs bundle) r := by
  induction n with
  | zero => exact ⟨stored, bundle, holding, fun _ => rfl, fun _ _ => rfl⟩
  | succ n ih =>
    obtain ⟨stored', bundle', holding', same, rounds⟩ := ih
    obtain ⟨stored'', bundle'', holding'', same', round⟩ :=
      holding'.pass content other refused usable
    rw [Function.iterate_succ_apply', Function.iterate_succ_apply']
    refine ⟨stored'', bundle'', holding'', fun none => (same' none).trans (same none), fun r row =>
      ?_⟩
    rw [round r row]
    exact Rounds.round_congr rounds row

/-- After a pass over a refused bundle the rules it deployed are synced and the others in error. -/
theorem statusOf_pass {r : AlertRule}
    (row : r ∈ S.rules) :
    if r ∈ S.accepted ok bundle then (S.pass ok reject w).statusOf r.id = some .synced
    else ∃ reason, (S.pass ok reject w).statusOf r.id = some (.error reason) := by
  have settled := pass_refused content other holding refused
  split
  · rename_i taken
    exact settled.synced r taken
  · rename_i out
    refine settled.error r (List.mem_filter.mpr ⟨row, ?_⟩) out
    cases deployed : R.deployedAs bundle r with
    | false => rfl
    | true => exact absurd (RuleSet.mem_accepted.mpr ⟨row, Rounds.round_of_admitted deployed⟩) out

theorem Converged.of_rounds
    (any : S.rules.any (R.fine ok) = true)
    (done : ∀ r ∈ S.rules, Rounds.round S.rules (R.fine ok) quarantineProbeLimit
      (R.deployedAs bundle) r = R.fine ok r) : Converged S ok (S.pass ok reject w) := by
  have accepted : ∀ r, r ∈ S.accepted ok bundle ↔ r ∈ S.rules ∧ R.fine ok r = true := by
    intro r
    rw [RuleSet.mem_accepted]
    exact and_congr_right fun row => by rw [done r row]
  have some : S.accepted ok bundle ≠ [] := by
    obtain ⟨r, row, fine⟩ := List.any_eq_true.mp any
    exact List.ne_nil_of_mem ((accepted r).mpr ⟨row, fine⟩)
  obtain ⟨⟨obj, rendered, live⟩, -⟩ := (pass_refused content other holding refused).bundle some
  refine ⟨?_, fun r row fine => ?_, fun r row bad => ?_⟩
  · have perm : (S.accepted ok bundle).Perm (S.rules.filter (R.fine ok)) := by
      refine (List.perm_ext_iff_of_nodup (S.accepted_ids ok bundle).of_map
        (S.ids.of_map.filter _)).mpr fun r => ?_
      rw [accepted, List.mem_filter]
    rw [live]
    exact (Renderer.entries_of_renderBundle rendered).1.trans (perm.map _)
  · simpa [accepted, row, fine] using statusOf_pass content other refused holding row
  · simpa [accepted, row, bad] using statusOf_pass content other refused holding row

end

/-! ## Some rules are acceptable and some are not -/

theorem Converged.of_open (holding : Holding R ok w stored bundle)
    (any : S.rules.any (R.fine ok) = true)
    (free : Rounds.Open S.rules (R.fine ok) quarantineProbeLimit (R.deployedAs bundle)) {n : Nat}
    (enough : S.rules.length ≤ n) : Converged S ok ((S.pass ok reject)^[n + 1] w) := by
  obtain ⟨stored', bundle', holding', -, rounds⟩ :=
    holding.passes content other refused (.inl any) n
  rw [Function.iterate_succ_apply']
  refine .of_rounds content other refused holding' any fun r row => ?_
  rw [Rounds.round_congr rounds row, ← Function.iterate_succ_apply' (Rounds.round _ _ _),
    Bool.eq_iff_iff]
  constructor
  · exact Rounds.good_of_rounds fun _ => fine_of_deployedAs holding.taken
  · have few : (Rounds.missing S.rules (R.fine ok) (R.deployedAs bundle)).length ≤ S.rules.length :=
      List.length_filter_le _ _
    exact Rounds.admitted_of_open free (by omega) row

/-- A rule behind too many refused ones stays in error. -/
theorem not_converged_of_blocked (holding : Holding R ok w stored bundle) {r : AlertRule}
    (row : r ∈ S.rules) (fine : R.fine ok r = true) (out : R.deployedAs bundle r = false)
    (blocked : quarantineProbeLimit ≤ (Rounds.blockers S.rules (R.fine ok) r).length) (n : Nat) :
    ¬Converged S ok ((S.pass ok reject)^[n + 1] w) := by
  intro converged
  have any : S.rules.any (R.fine ok) = true := List.any_eq_true.mpr ⟨r, row, fine⟩
  obtain ⟨stored', bundle', holding', -, rounds⟩ :=
    holding.passes content other refused (.inl any) n
  have never :=
    Rounds.blocked_forever (fun _ => fine_of_deployedAs holding.taken) blocked out (n + 1)
  rw [Function.iterate_succ_apply'] at never converged
  have unreached : r ∉ S.accepted ok bundle' := by
    rw [RuleSet.mem_accepted, Rounds.round_congr rounds row, never]
    simp
  have status := statusOf_pass content other refused holding' row
  rw [if_neg unreached, converged.synced r row fine] at status
  simp at status

end

/-! ## No rule is acceptable -/

theorem filter_fine_nil (none : S.rules.any (R.fine ok) = false) : S.rules.filter
    (R.fine ok) = [] := List.filter_eq_nil_iff.mpr (List.any_eq_false.mp none)

/-- Then every rule is suspect, none is accepted, and all end up in error. -/
theorem Holding.accepted_nil (holding : Holding R ok w stored bundle)
    (none : S.rules.any (R.fine ok) = false) :
    S.accepted ok bundle = [] ∧ S.rules.filter (!R.deployedAs bundle ·) = S.rules := by
  have bad := List.any_eq_false.mp none
  constructor
  · refine List.eq_nil_iff_forall_not_mem.mpr fun r mem => ?_
    obtain ⟨row, new⟩ := RuleSet.mem_accepted.mp mem
    exact bad r row (Rounds.good_of_round (fun _ => fine_of_deployedAs holding.taken) new)
  · refine List.filter_eq_self.mpr fun r row => ?_
    cases deployed : R.deployedAs bundle r with
    | false => rfl
    | true => exact absurd (fine_of_deployedAs holding.taken deployed) (bad r row)

/-- The object is gone and the console knows of no accepted bundle. -/
structure Gone (w : World) : Prop where
  live : w.live = none
  lastApplied : w.lastApplied = none

/-- With nothing to fall back to, a refused bundle fails every rule. -/
theorem Gone.pass (reject : ApiError) (gone : Gone w) (refused : S.rules.all (R.fine ok) = false) :
    Gone (S.pass ok reject w) ∧
      ∀ r ∈ S.rules, ∃ reason, (S.pass ok reject w).statusOf r.id = some (.error reason) := by
  obtain ⟨desired, rendered⟩ := exists_bundle S
  have rules : S.rules ≠ [] := by
    intro none
    simp [none] at refused
  have got : (w.get (strict ok reject)).2 = .error { kind := .notFound } := by
    rw [get_strict, gone.live]
  have live : (w.tick (strict ok reject)).live = none :=
    (tick_live (quiet_strict ok reject) w).trans gone.live
  have known : ((seed R (w.tick (strict ok reject)) (.error { kind := .notFound })).issue
      (strict ok reject)).lastApplied = none := gone.lastApplied
  rw [pass_eq, got, deploy, if_neg rules, rendered]
  dsimp only
  rw [applyAll, apply_strict ok reject rendered, if_neg (by simp [refused])]
  simp only [known, Option.getD_none]
  refine ⟨⟨?_, ?_⟩, fun r row => ⟨.cause (classify reject) reject, ?_⟩⟩
  · rw [live_markAll]
    exact (tick_live (quiet_strict ok reject) _).trans live
  · rw [lastApplied_markAll, known]
  · rw [World.statusOf_markAll, if_pos (List.mem_map_of_mem row)]

theorem Converged.of_gone (gone : Gone w) (none : S.rules.any (R.fine ok) = false)
    (error : ∀ r ∈ S.rules, ∃ reason, w.statusOf r.id = some (.error reason)) : Converged S ok w :=
      by
  refine ⟨?_, fun r row fine => absurd fine (List.any_eq_false.mp none r row), fun r row _ =>
    error r row⟩
  rw [gone.live, filter_fine_nil none]
  exact .nil

section
variable (content : isContentRejection reject = true) (other : classify reject = .other)
  (refused : S.rules.all (R.fine ok) = false)
include content other refused

theorem Converged.of_none (holding : Holding R ok w stored bundle)
    (none : S.rules.any (R.fine ok) = false)
    (few : S.rules.length ≤ quarantineProbeLimit) (n : Nat) :
    Gone ((S.pass ok reject)^[n + 1] w) ∧ Converged S ok ((S.pass ok reject)^[n + 1] w) := by
  induction n with
  | zero =>
    have settled := pass_refused content other holding refused
    obtain ⟨empty, suspects⟩ := holding.accepted_nil none
    obtain ⟨live, lastApplied⟩ := settled.gone empty (by rwa [suspects])
    have error :
      ∀ r ∈ S.rules, ∃ reason, (S.pass ok reject w).statusOf r.id = some (.error reason) :=
      fun r row => settled.error r (by rwa [suspects]) (by simp [empty])
    exact ⟨⟨live, lastApplied⟩, .of_gone ⟨live, lastApplied⟩ none error⟩
  | succ n ih =>
    rw [Function.iterate_succ_apply']
    obtain ⟨gone, error⟩ := ih.1.pass reject refused
    exact ⟨gone, .of_gone gone none error⟩

/-- With too many rules to offer in one pass, the object stays what it was. -/
theorem converged_iff_of_many (holding : Holding R ok w stored bundle)
    (none : S.rules.any (R.fine ok) = false)
    (many : quarantineProbeLimit < S.rules.length) (n : Nat) :
    Converged S ok ((S.pass ok reject)^[n + 1] w) ↔ stored.entries = [] := by
  obtain ⟨stored', bundle', holding', same, -⟩ :=
    holding.passes content other refused (.inr many) (n + 1)
  rw [same none] at holding'
  constructor
  · intro converged
    have perm := converged.live
    rw [holding'.live, filter_fine_nil none] at perm
    simpa using perm
  · intro empty
    obtain ⟨stored'', bundle'', holding'', -, -⟩ :=
      holding.passes content other refused (.inr many) n
    obtain ⟨nothing, -⟩ := holding''.accepted_nil none
    refine ⟨?_, fun r row fine => absurd fine (List.any_eq_false.mp none r row), fun r row _ => ?_⟩
    · rw [holding'.live, filter_fine_nil none]
      simp [empty]
    · rw [Function.iterate_succ_apply']
      simpa [nothing] using statusOf_pass content other refused holding'' row

end

/-! ## Every rule is acceptable -/

/-- The bundle is applied, and drift is reported unless it was stored before. -/
theorem pass_accepted (reject : ApiError) (live : w.live = some stored)
    (owned : stored.ownedByConsole = true) (rules : S.rules ≠ []) {desired : Object}
    (rendered : R.renderBundle S.rules = .ok desired) (fine : S.rules.all (R.fine ok) = true) :
    (S.pass ok reject w).live = some desired ∧
      (stored = desired → ∀ r ∈ S.rules, (S.pass ok reject w).statusOf r.id = some .synced) := by
  have got : (w.get (strict ok reject)).2 = .ok stored := by rw [get_strict, live]
  rw [pass_eq, got, deploy, if_neg rules, rendered]
  dsimp only
  rw [if_pos owned, applyAll, apply_strict ok reject rendered, if_pos fine]
  dsimp only
  constructor
  · rw [live_markAll]
  · rintro rfl r row
    have same : compare stored (.ok stored) = false := by simp [compare]
    refine (World.statusOf_markAll _ S.rules _ r.id).trans ?_
    rw [if_pos (List.mem_map_of_mem row), same]
    rfl

/-- Without rules, the console deletes its object. -/
theorem live_pass_nil (reject : ApiError) (rules : S.rules = [])
    (mine : ∀ obj, w.live = some obj → obj.ownedByConsole = true) :
    (S.pass ok reject w).live = none := by
  have ticked := tick_live (quiet_strict ok reject) w
  rw [pass_eq, deploy, if_pos rules, get_strict]
  cases live : w.live with
  | none => exact ticked.trans live
  | some obj =>
    rw [deleteIfOwned, if_pos (mine obj live)]
    rfl

theorem Converged.of_all (reject : ApiError) (live : w.live = some stored)
    (owned : stored.ownedByConsole = true) (fine : S.rules.all (R.fine ok) = true) (n : Nat) :
    Converged S ok ((S.pass ok reject)^[n + 2] w) := by
  have all := List.all_eq_true.mp fine
  by_cases rules : S.rules = []
  · have gone : ∀ n, ((S.pass ok reject)^[n + 1] w).live = none := by
      intro n
      induction n with
      | zero => exact live_pass_nil reject rules fun obj held =>
        Option.some.inj (live.symm.trans held) ▸ owned
      | succ n ih =>
        rw [Function.iterate_succ_apply']
        exact live_pass_nil reject rules fun obj held => nomatch ih.symm.trans held
    refine ⟨?_, by simp [rules], by simp [rules]⟩
    rw [gone, rules]
    exact .nil
  · obtain ⟨desired, rendered⟩ := exists_bundle S
    have mine : desired.ownedByConsole = true :=
      decide_eq_true (Renderer.renderBundle_eq rendered).1
    have stays : ∀ n, ((S.pass ok reject)^[n + 1] w).live = some desired := by
      intro n
      induction n with
      | zero => exact (pass_accepted reject live owned rules rendered fine).1
      | succ n ih =>
        rw [Function.iterate_succ_apply']
        exact (pass_accepted reject ih mine rules rendered fine).1
    refine ⟨?_, fun r row _ => ?_, fun r row bad => absurd (all r row) (by simp [bad])⟩
    · rw [stays, List.filter_eq_self.mpr all]
      exact (Renderer.entries_of_renderBundle rendered).1
    · rw [Function.iterate_succ_apply']
      exact (pass_accepted reject (stays n) mine rules rendered fine).2 rfl r row

end Runs

/-! ## The result -/

/-- No acceptable rule that is yet to be deployed has eight unacceptable ones before it, and when
there are only unacceptable rules, one pass can offer them all (or nothing is live). -/
structure Unblocked {R : Renderer} (S : RuleSet R) (ok : Entry → Bool) (stored : Object)
    (lastApplied : Option (GoMap String String)) : Prop where
  behind : Rounds.Open S.rules (R.fine ok) quarantineProbeLimit
    (R.deployedAs ((baseline R (.ok stored) lastApplied).getD ∅))
  stale : S.rules.any (R.fine ok) = false →
    S.rules.length ≤ quarantineProbeLimit ∨ stored.entries = []

theorem open_of_all {R : Renderer} {S : RuleSet R} {ok : Entry → Bool}
    (fine : S.rules.all (R.fine ok) = true) (admitted : AlertRule → Bool) :
    Rounds.Open S.rules (R.fine ok) quarantineProbeLimit admitted := by
  intro r row _ _
  have none : Rounds.blockers S.rules (R.fine ok) r = [] := by
    refine List.filter_eq_nil_iff.mpr fun q before => ?_
    simp [List.all_eq_true.mp fine q ((List.takeWhile_sublist _).subset before)]
  simp [none, quarantineProbeLimit]

/-- **The passes converge unless a rule is hidden.** From the console's own object, with a bundle to
fall back to, the passes end up with exactly the acceptable rules deployed and the statuses right
if and only if no rule is hidden behind eight refused ones; and then they are there within two more
passes than there are rules. -/
theorem converges_iff {R : Renderer} (S : RuleSet R) (ok : Entry → Bool) {reject : ApiError}
    (content : isContentRejection reject = true) (other : classify reject = .other) {w : World}
    {stored : Object} {last : GoMap String String} (live : w.live = some stored)
    (owned : stored.ownedByConsole = true) (accepted : stored.entries.all ok = true)
    (lastApplied : w.lastApplied = some last) (taken : Taken R ok last) :
    ((∃ N, ∀ n, N ≤ n → Converged S ok ((S.pass ok reject)^[n] w)) ↔
        Unblocked S ok stored w.lastApplied) ∧ (Unblocked S ok stored w.lastApplied →
        ∀ n, S.rules.length + 2 ≤ n → Converged S ok ((S.pass ok reject)^[n] w)) := by
  obtain ⟨bundle, seeded, taken⟩ := taken.baseline accepted
  rw [← lastApplied] at seeded
  have holding : Holding R ok w stored bundle := ⟨live, owned, seeded, taken⟩
  have enough : Unblocked S ok stored w.lastApplied →
      ∀ n, S.rules.length + 2 ≤ n → Converged S ok ((S.pass ok reject)^[n] w) := by
    intro unblocked n late
    have free := unblocked.behind
    rw [seeded, Option.getD_some] at free
    obtain ⟨n, rfl⟩ := Nat.exists_eq_add_of_le' (Nat.le_of_add_left_le late)
    cases all : S.rules.all (R.fine ok) with
    | true => exact .of_all reject live owned all n
    | false =>
      cases any : S.rules.any (R.fine ok) with
      | true => exact .of_open content other all holding any free (by omega)
      | false =>
        by_cases few : S.rules.length ≤ quarantineProbeLimit
        · exact (Converged.of_none content other all holding any few (n + 1)).2
        · have empty := (unblocked.stale any).resolve_left few
          exact (converged_iff_of_many content other all holding any (Nat.not_le.mp few)
            (n + 1)).mpr empty
  refine ⟨⟨?_, fun unblocked => ⟨_, enough unblocked⟩⟩, enough⟩
  rintro ⟨N, converged⟩
  have later := converged (N + 1) (Nat.le_succ N)
  refine ⟨?_, fun none => ?_⟩
  · rw [seeded, Option.getD_some]
    cases all : S.rules.all (R.fine ok) with
    | true => exact open_of_all all _
    | false =>
      intro r row fine out
      by_contra blocked
      exact not_converged_of_blocked content other all holding row fine out
        (Nat.not_lt.mp blocked) N later
  · by_cases few : S.rules.length ≤ quarantineProbeLimit
    · exact .inl few
    · refine .inr ?_
      have refused : S.rules.all (R.fine ok) = false := by
        cases all : S.rules.all (R.fine ok) with
        | false => rfl
        | true =>
          have empty : S.rules = [] := by
            refine List.eq_nil_iff_forall_not_mem.mpr fun r row => ?_
            exact List.any_eq_false.mp none r row (List.all_eq_true.mp all r row)
          simp [empty] at few
      exact (converged_iff_of_many content other refused holding none
        (Nat.not_le.mp few) N).mp later

def threeSet : RuleSet plain := ⟨threeRules, by decide, by decide, by decide⟩

def isGood (e : Entry) : Bool := e.body = "good"

/-- The console's last bundle, made of one rule, is live. -/
def oneRule (id : String) : World :=
  { live := some ⟨managedByValue, [id], [⟨id, "good"⟩]⟩
    lastApplied := some (plain.ruleFingerprints [⟨id, "good"⟩]) }

/-- The third rule, new and listed behind a refused one, gets in. -/
theorem converges_iff_three :
    Converged threeSet isGood ((threeSet.pass isGood { kind := .invalid })^[5] (oneRule "1")) := by
  have unblocked : Unblocked threeSet isGood ⟨managedByValue, ["1"], [⟨"1", "good"⟩]⟩
      (oneRule "1").lastApplied := ⟨by unfold Rounds.Open; decide, by decide⟩
  exact (converges_iff threeSet isGood (by decide) (by decide) rfl (by decide) (by decide) rfl
    (.ruleFingerprints (by decide))).2 unblocked 5 (by decide)

/-- Eight rules no cluster takes, listed before a new one that it would take. -/
def hidden : List AlertRule :=
  (["1", "2", "3", "4", "5", "6", "7", "8"].map fun id => ⟨id, id, 0, 0, "bad"⟩) ++
    [⟨"9", "9", 0, 0, "good"⟩]

def hiddenSet : RuleSet plain := ⟨hidden, by decide, by decide, by decide⟩

/-- However many passes are made, the ninth rule is never offered. -/
theorem hidden_never_converges : ¬∃ N, ∀ n, N ≤ n →
    Converged hiddenSet isGood ((hiddenSet.pass isGood { kind := .invalid })^[n] (oneRule "0")) :=
      by
  have holding : Holding plain isGood (oneRule "0") ⟨managedByValue, ["0"], [⟨"0", "good"⟩]⟩
      (plain.ruleFingerprints [⟨"0", "good"⟩]) := by
    refine ⟨rfl, by decide, ?_, .ruleFingerprints (by decide)⟩
    unfold baseline
    exact if_pos ⟨by decide, by decide⟩
  have ninth : (⟨"9", "9", 0, 0, "good"⟩ : AlertRule) ∈ hiddenSet.rules := by decide
  rintro ⟨N, converged⟩
  exact not_converged_of_blocked (by decide) (by decide) (by decide) holding ninth
    (by decide) (by decide) (by decide) N (converged (N + 1) (Nat.le_succ N))

end Kconmon.Console.PromRules
