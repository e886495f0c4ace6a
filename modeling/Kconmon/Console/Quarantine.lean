import Kconmon.Console.RuleStatus
import Kconmon.Lib.Rounds
import Mathlib.Data.List.Induction

/-!
# One pass of the quarantine

The rules render without clashes, and the cluster takes a bundle exactly when it takes each of its
entries. When it refuses the bundle of all rules, a pass keeps what the last accepted bundle holds
unchanged and offers the first `quarantineProbeLimit` of the other rules, in the order of the
listing. So a pass is a round in the sense of `Lib.Rounds`, unless it deletes the bundle because
every rule was refused on its own.
-/
namespace Kconmon.Console.PromRules
open Lib Renderer

/-- Enabled rules that all render, under distinct alert names. -/
structure RuleSet (R : Renderer) where
  rules : List AlertRule
  ids : (rules.map AlertRule.id).Nodup
  renders : ∀ r ∈ rules, (R.entryOf r).isSome
  alerts : (rules.map R.alertOf).Nodup

/-! ## Rendering -/

section Rendering

variable {R : Renderer}

theorem ruleEntry_eq {r : AlertRule} (renders : (R.entryOf r).isSome) :
    ∃ e, R.entryOf r = some e ∧ R.ruleEntry r = .ok (e, R.alertOf r) := by
  cases rendered : R.ruleEntry r with
  | error err => simp [entryOf, rendered] at renders
  | ok p => exact ⟨p.1, by simp [entryOf, rendered], by simp [alertOf, rendered]⟩

variable {rules : List AlertRule}

section
variable (renders : ∀ r ∈ rules, (R.entryOf r).isSome)
include renders

theorem collect_ok {seen : List (String × String)}
    (alerts : (rules.map R.alertOf).Nodup) (unseen :
      ∀ r ∈ rules, seen.lookup (R.alertOf r) = none) :
    ∃ entries, R.collect seen rules = .ok entries := by
  induction rules generalizing seen with
  | nil => exact ⟨[], rfl⟩
  | cons r rules ih =>
    obtain ⟨e, -, rendered⟩ := ruleEntry_eq (renders r List.mem_cons_self)
    obtain ⟨fresh, alerts⟩ := List.nodup_cons.mp alerts
    have later : ∀ q ∈ rules, ((R.alertOf r, r.name) :: seen).lookup (R.alertOf q) = none := by
      intro q listed
      have differ : R.alertOf q ≠ R.alertOf r :=
        fun same => fresh (same ▸ List.mem_map_of_mem listed)
      simp [List.lookup_cons, beq_eq_false_iff_ne.mpr differ,
        unseen q (List.mem_cons_of_mem _ listed)]
    obtain ⟨entries, rest⟩ :=
      ih (fun q listed => renders q (List.mem_cons_of_mem _ listed)) alerts later
    refine ⟨e :: entries, ?_⟩
    simp [collect, rendered, unseen r List.mem_cons_self, rest, bind, Except.bind, pure,
      Except.pure]

theorem renderBundle_ok
    (alerts : (rules.map R.alertOf).Nodup) : ∃ obj, R.renderBundle rules = .ok obj := by
  have perm := List.perm_insertionSort bundleOrder rules
  have sorted : ∃ entries, R.collect [] (rules.insertionSort bundleOrder) = .ok entries :=
    collect_ok (fun r listed => renders r (perm.mem_iff.mp listed))
      ((perm.map _).nodup_iff.mpr alerts) fun _ _ => rfl
  obtain ⟨entries, collected⟩ := sorted
  exact ⟨_, by rw [renderBundle, collected]; rfl⟩

theorem renderable_all (w : World) : renderable R w rules = (w, rules) := by
  induction rules with
  | nil => rfl
  | cons r rules ih =>
    have alone : ∃ obj, R.renderBundle [r] = .ok obj :=
      renderBundle_ok (by simpa using renders r List.mem_cons_self) (by simp)
    obtain ⟨obj, rendered⟩ := alone
    have rest := ih fun q listed => renders q (List.mem_cons_of_mem _ listed)
    simp [renderable, rendered, rest]

end

theorem visits_clashFree (alerts : (rules.map R.alertOf).Nodup) {s : Clashes}
    (free : ∀ r ∈ rules, s.holder.lookup (R.alertOf r) = none) :
    (rules.foldl (Clashes.visit R) s).world = s.world ∧
      (rules.foldl (Clashes.visit R) s).refused = s.refused := by
  induction rules generalizing s with
  | nil => exact ⟨rfl, rfl⟩
  | cons r rules ih =>
    obtain ⟨fresh, alerts⟩ := List.nodup_cons.mp alerts
    have visited : s.visit R r = { s with holder := (R.alertOf r, r.name) :: s.holder } := by
      simp [Clashes.visit, free r List.mem_cons_self]
    rw [List.foldl_cons, visited]
    refine ih alerts fun q listed => ?_
    have differ : R.alertOf q ≠ R.alertOf r := fun same => fresh (same ▸ List.mem_map_of_mem listed)
    simp [List.lookup_cons, beq_eq_false_iff_ne.mpr differ, free q (List.mem_cons_of_mem _ listed)]

theorem prepare_ruleSet (S : RuleSet R) (w : World) (got : Except ApiError Object) :
    prepare R S.rules w got = (seed R w got, S.rules) := by
  have perm := List.perm_insertionSort (precedes (seed R w got).lastApplied) S.rules
  obtain ⟨world, refused⟩ := visits_clashFree (R := R) (s := { world := seed R w got })
    ((perm.map _).nodup_iff.mpr S.alerts) (by simp)
  simp [prepare, renderable_all S.renders, dropAlertNameCollisions, world, refused]

end Rendering

/-! ## Fingerprints -/

section Fingerprints

variable {R : Renderer} {entries : List Entry}

/-- The last entry with an id is the one whose hash is kept. -/
theorem lookup_ruleFingerprints (R : Renderer) (entries : List Entry) (id : String) :
    (R.ruleFingerprints entries).lookup id =
      (entries.reverse.find? fun e => e.id = id ∧ id ≠ "").map R.sha256 := by
  unfold ruleFingerprints
  induction entries using List.reverseRecOn with
  | nil => rfl
  | append_singleton entries e ih =>
    rw [List.foldl_append, List.reverse_append, List.foldl_cons, List.foldl_nil,
      List.reverse_singleton,
      List.singleton_append, List.find?_cons]
    by_cases same : e.id = id
    · subst same
      by_cases empty : e.id = ""
      · simpa [empty] using ih
      · simp [empty]
    · have other : ¬(e.id = id ∧ id ≠ "") := fun both => same both.1
      by_cases empty : e.id = ""
      · simpa [empty, other, same] using ih
      · rw [if_neg empty, GoMap.lookup_insert_if, if_neg (Ne.symm same)]
        simpa [other, same] using ih

theorem mem_of_lookup_ruleFingerprints {id h : String}
    (known : (R.ruleFingerprints entries).lookup id = some h) :
    ∃ e ∈ entries, e.id = id ∧ R.sha256 e = h := by
  rw [lookup_ruleFingerprints] at known
  obtain ⟨e, found, hash⟩ := Option.map_eq_some_iff.mp known
  have same := List.find?_some found
  exact ⟨e, by simpa using List.mem_of_find?_eq_some found,
    by simpa using (of_decide_eq_true same).1,
    hash⟩

theorem lookup_ruleFingerprints_of_mem (distinct : (entries.map Entry.id).Nodup) {e : Entry}
    (listed : e ∈ entries) (labelled : e.id ≠ "") :
    (R.ruleFingerprints entries).lookup e.id = some (R.sha256 e) := by
  rw [lookup_ruleFingerprints, Option.map_eq_some_iff]
  obtain ⟨e', found⟩ : ∃ e', entries.reverse.find? (fun d => d.id = e.id ∧ e.id ≠ "") = some e' :=
    by
    refine Option.isSome_iff_exists.mp (List.find?_isSome.mpr ⟨e, by simpa using listed, ?_⟩)
    simpa using labelled
  refine ⟨e', found, congrArg R.sha256 ?_⟩
  have test := List.find?_some found
  have same := (of_decide_eq_true test).1
  exact List.inj_on_of_nodup_map distinct
    (by simpa using List.mem_of_find?_eq_some found) listed same

theorem lookup_ruleFingerprints_of_not_mem {id : String} (out : id ∉ entries.map Entry.id) :
    (R.ruleFingerprints entries).lookup id = none := by
  cases known : (R.ruleFingerprints entries).lookup id with
  | none => rfl
  | some h =>
    obtain ⟨e, listed, rfl, -⟩ := mem_of_lookup_ruleFingerprints known
    exact absurd (List.mem_map_of_mem listed) out

end Fingerprints

/-! ## The rules in the last accepted bundle -/

/-- The rule is in the bundle with these fingerprints, with the content it has now. -/
def Renderer.deployedAs (R : Renderer) (bundle : GoMap String String) (r : AlertRule) : Bool :=
  (R.entryOf r).any fun e => bundle.lookup r.id = some (R.sha256 e)

section Baseline

variable {R : Renderer} {rules : List AlertRule} {desired : Object}

variable {r : AlertRule}

theorem Renderer.id_ne_empty {e : Entry} (rendered : R.entryOf r = some e) : e.id ≠ "" := by
  obtain ⟨e', entry, ok⟩ := ruleEntry_eq (R := R) (r := r) (by simp [rendered])
  cases rendered.symm.trans entry
  rw [(R.labelled ok).1]
  exact (R.labelled ok).2

theorem lookup_bundle (rendered : R.renderBundle rules = .ok desired)
    (ids : (rules.map AlertRule.id).Nodup) (bundled : r ∈ rules) : ∃ e, R.entryOf r = some e ∧
      (R.ruleFingerprints desired.entries).lookup r.id = some (R.sha256 e) := by
  obtain ⟨e, entry, only⟩ := entry_of_renderBundle rendered ids bundled
  have same := id_of_entryOf entry
  have listed : e ∈ desired.entries := (List.mem_filter.mp (only ▸ List.mem_singleton_self e)).1
  have distinct := (entries_of_renderBundle rendered).2.nodup_iff.mpr ids
  refine ⟨e, entry, ?_⟩
  rw [← same]
  exact lookup_ruleFingerprints_of_mem distinct listed (id_ne_empty entry)

theorem unchanged_eq (rendered : R.renderBundle rules = .ok desired)
    (ids : (rules.map AlertRule.id).Nodup) (bundle : GoMap String String) (bundled : r ∈ rules) :
    unchanged bundle (R.ruleFingerprints desired.entries) r = R.deployedAs bundle r := by
  obtain ⟨e, entry, lookup⟩ := lookup_bundle rendered ids bundled
  rw [unchanged, deployedAs, entry, lookup]
  cases bundle.lookup r.id with
  | none => simp
  | some applied => simp [eq_comm]

/-- In the fingerprints of a bundle stand its rules and no others. -/
theorem deployedAs_bundle {accepted : List AlertRule} {obj : Object}
    (rendered : R.renderBundle accepted = .ok obj) (listed : accepted ⊆ rules)
    (ids : (rules.map AlertRule.id).Nodup) (unique : (accepted.map AlertRule.id).Nodup)
    (row : r ∈ rules) :
    R.deployedAs (R.ruleFingerprints obj.entries) r = decide (r ∈ accepted) := by
  by_cases taken : r ∈ accepted
  · obtain ⟨e, entry, lookup⟩ := lookup_bundle rendered unique taken
    simp [deployedAs, entry, lookup, taken]
  · have out : r.id ∉ obj.entries.map Entry.id := by
      rw [(entries_of_renderBundle rendered).2.mem_iff]
      intro same
      obtain ⟨q, bundled, id⟩ := List.mem_map.mp same
      exact taken (List.inj_on_of_nodup_map ids (listed bundled) row id ▸ bundled)
    simp [deployedAs, lookup_ruleFingerprints_of_not_mem out, taken]

/-- Every fingerprint is that of an entry the cluster took. -/
def Taken (R : Renderer) (ok : Entry → Bool) (bundle : GoMap String String) : Prop :=
  ∀ id h, bundle.lookup id = some h → ∃ e, ok e = true ∧ R.sha256 e = h

theorem Taken.ruleFingerprints {ok : Entry → Bool} {entries : List Entry}
    (accepted : entries.all ok = true) : Taken R ok (R.ruleFingerprints entries) := by
  intro id h known
  obtain ⟨e, listed, -, hash⟩ := mem_of_lookup_ruleFingerprints known
  exact ⟨e, List.all_eq_true.mp accepted e listed, hash⟩

theorem Taken.baseline {ok : Entry → Bool} {obj : Object} {bundle : GoMap String String}
    (taken : Taken R ok bundle) (accepted : obj.entries.all ok = true) :
    ∃ seeded, PromRules.baseline R (.ok obj) (some bundle) = some seeded ∧ Taken R ok seeded := by
  unfold PromRules.baseline
  dsimp only
  split
  · exact ⟨_, rfl, .ruleFingerprints accepted⟩
  · exact ⟨bundle, rfl, taken⟩

end Baseline

/-! ## The cluster -/

/-- Takes a bundle when it takes each of its entries; nothing else fails and nobody else writes. -/
def strict (ok : Entry → Bool) (reject : ApiError) : Cluster where
  fails _ call := match call with
    | .apply obj => if obj.entries.all ok then none else some reject
    | .get | .delete => none

/-- Whether the cluster takes the rule. -/
def Renderer.fine (R : Renderer) (ok : Entry → Bool) (r : AlertRule) : Bool := (R.entryOf r).any ok

section Strict

variable {R : Renderer} {ok : Entry → Bool} {reject : ApiError} {w : World}

theorem quiet_strict (ok : Entry → Bool) (reject : ApiError) : (strict ok reject).Quiet :=
  fun _ _ => rfl

theorem get_strict (w : World) : w.get (strict ok reject) = (w.tick (strict ok reject),
    match w.live with
    | none => .error { kind := .notFound }
    | some obj => .ok obj) := by
  have live := tick_live (quiet_strict ok reject) w
  simp only [World.get, live]
  cases w.live <;> rfl

/-- A bundle passes when every rule in it does. -/
theorem all_entries {rules : List AlertRule} {obj : Object}
    (rendered : R.renderBundle rules = .ok obj) : obj.entries.all ok = rules.all (R.fine ok) := by
  have perm := (entries_of_renderBundle rendered).1
  have left : obj.entries.all ok = (obj.entries.map some).all (Option.any ok) := by
    simp [List.all_map, Function.comp_def]
  have right : rules.all (R.fine ok) = (rules.map R.entryOf).all (Option.any ok) := by
    rw [List.all_map]
    rfl
  rw [left, right]
  exact perm.all_eq

theorem apply_strict (ok : Entry → Bool) (reject : ApiError) {rules : List AlertRule} {obj : Object}
    (rendered : R.renderBundle rules = .ok obj) (w : World) : w.apply (strict ok reject) obj =
      if rules.all (R.fine ok) then ({ w.issue (strict ok reject) with live := some obj }, none)
      else (w.issue (strict ok reject), some reject) := by
  unfold World.apply
  simp only [strict, all_entries rendered]
  split <;> rename_i answer <;> split at answer <;> simp_all

theorem lastApplied_restore (R : Renderer) (cl : Cluster) (w : World) (accepted : List AlertRule) :
    (restore R cl w accepted).lastApplied = w.lastApplied := by
  unfold restore
  split
  · rfl
  · split
    · rfl
    · unfold World.apply
      split <;> rfl

end Strict

/-! ## The offers of a pass -/

section Offers

variable {R : Renderer} {ok : Entry → Bool} {reject : ApiError}

variable {rules : List AlertRule}

theorem ruleByID_of_mem (ids : (rules.map AlertRule.id).Nodup) {r : AlertRule}
    (listed : r ∈ rules) : ruleByID rules r.id = some r := by
  obtain ⟨r', found⟩ : ∃ r', ruleByID rules r.id = some r' :=
    Option.isSome_iff_exists.mp (List.find?_isSome.mpr ⟨r, listed, by simp⟩)
  have test := List.find?_some found
  rw [found, List.inj_on_of_nodup_map ids (List.mem_of_find?_eq_some found) listed
    (of_decide_eq_true test)]

/-- One offer is accepted exactly when the rule is fine. -/
theorem offer_strict (ok : Entry → Bool) (content : isContentRejection reject = true) (s : Probing)
    {r : AlertRule} (found : ruleByID rules r.id = some r)
    (renders : ∀ q ∈ s.accepted ++ [r], (R.entryOf q).isSome)
    (alerts : ((s.accepted ++ [r]).map R.alertOf).Nodup) (accepted : s.accepted.all (R.fine ok))
    (room : s.probes < quarantineProbeLimit) : (s.offer R (strict ok reject) rules r.id).accepted =
        s.accepted ++ [r].filter (R.fine ok) ∧
      (s.offer R (strict ok reject) rules r.id).probes = s.probes + 1 ∧
      (s.offer R (strict ok reject) rules r.id).inconclusive = s.inconclusive ∧
      (s.offer R (strict ok reject) rules r.id).world.lastApplied = s.world.lastApplied := by
  obtain ⟨obj, rendered⟩ := renderBundle_ok renders alerts
  have answer := apply_strict ok reject rendered s.world
  have all : (s.accepted ++ [r]).all (R.fine ok) = R.fine ok r := by simp [accepted]
  unfold Probing.offer
  rw [if_neg (Nat.not_le.mpr room), found]
  dsimp only
  rw [rendered]
  dsimp only
  rw [answer, all]
  cases taken : R.fine ok r with
  | true => simp [taken, World.issue, World.tick]
  | false => simp [taken, content, lastApplied_restore, World.issue, World.tick]

theorem offer_full {cl : Cluster} {s : Probing} (full : quarantineProbeLimit ≤ s.probes)
    (ids : List String) : ids.foldl (Probing.offer R cl rules) s = s := by
  induction ids with
  | nil => rfl
  | cons id ids ih => rwa [List.foldl_cons, Probing.offer, if_pos full]

/-- The offers take the fine ones among the first rules there is room for. -/
theorem offers_strict (ok : Entry → Bool) {suspects : List AlertRule}
    (content : isContentRejection reject = true) (ids : (rules.map AlertRule.id).Nodup)
    (s : Probing) (listed : suspects ⊆ rules)
    (renders : ∀ q ∈ s.accepted ++ suspects, (R.entryOf q).isSome)
    (alerts : ((s.accepted ++ suspects).map R.alertOf).Nodup)
    (accepted : s.accepted.all (R.fine ok)) :
    ((suspects.map AlertRule.id).foldl (Probing.offer R (strict ok reject) rules) s).accepted =
        s.accepted ++ (suspects.take (quarantineProbeLimit - s.probes)).filter (R.fine ok) ∧
      ((suspects.map AlertRule.id).foldl (Probing.offer R (strict ok reject) rules) s).probes =
        s.probes + min suspects.length (quarantineProbeLimit - s.probes) ∧
      ((suspects.map AlertRule.id).foldl
        (Probing.offer R (strict ok reject) rules) s).inconclusive = s.inconclusive ∧
      ((suspects.map AlertRule.id).foldl
        (Probing.offer R (strict ok reject) rules) s).world.lastApplied = s.world.lastApplied := by
  induction suspects generalizing s with
  | nil => simp
  | cons r suspects ih =>
    by_cases room : s.probes < quarantineProbeLimit
    · have here : (s.accepted ++ [r]).Sublist (s.accepted ++ r :: suspects) :=
        List.Sublist.append_left (by simp) _
      obtain ⟨took, probes, inconclusive, lastApplied⟩ := offer_strict ok content s
        (ruleByID_of_mem ids (listed List.mem_cons_self))
        (fun q mem => renders q (here.subset mem)) ((here.map _).nodup alerts) accepted room
      rw [List.map_cons, List.foldl_cons]
      generalize s.offer R (strict ok reject) rules r.id =
        s' at took probes inconclusive lastApplied
      have rest : (s'.accepted ++ suspects).Sublist (s.accepted ++ r :: suspects) := by
        rw [took, List.append_assoc]
        exact List.Sublist.append_left
          ((List.filter_sublist (p := R.fine ok) (l := [r])).append_right suspects) _
      have accepted' : s'.accepted.all (R.fine ok) := by
        rw [took, List.all_append, accepted, Bool.true_and]
        simp
      obtain ⟨ihTook, ihProbes, ihInconclusive, ihLastApplied⟩ := ih s'
        (fun q mem => listed (List.mem_cons_of_mem _ mem))
        (fun q mem => renders q (rest.subset mem)) ((rest.map _).nodup alerts) accepted'
      have next : quarantineProbeLimit - s.probes = quarantineProbeLimit - s'.probes + 1 := by omega
      refine ⟨?_, ?_, ihInconclusive.trans inconclusive, ihLastApplied.trans lastApplied⟩
      · rw [ihTook, took, next, List.take_succ_cons, List.append_assoc, ← List.filter_append,
          List.singleton_append]
      · rw [ihProbes, probes, List.length_cons]
        omega
    · have full := Nat.not_lt.mp room
      rw [offer_full full]
      simp [Nat.sub_eq_zero_of_le full]

end Offers

variable {bundle : GoMap String String}

theorem fine_of_deployedAs {R : Renderer} {ok : Entry → Bool} (taken : Taken R ok bundle)
    {r : AlertRule} (deployed : R.deployedAs bundle r = true) : R.fine ok r = true := by
  unfold deployedAs at deployed
  cases entry : R.entryOf r with
  | none => simp [entry] at deployed
  | some e =>
    have known : bundle.lookup r.id = some (R.sha256 e) := by simpa [entry] using deployed
    obtain ⟨e', accepted, hash⟩ := taken _ _ known
    obtain rfl := R.collisionFree hash
    simpa [fine, entry] using accepted

/-! ## A pass over a refused bundle -/

/-- What a pass that kept or took `accepted` out of `suspects` leaves, when it began with `stored`
and `baseline`. -/
structure Settled (R : Renderer) (accepted suspects : List AlertRule) (stored : Object)
    (baseline : GoMap String String) (w : World) : Prop where
  bundle : accepted ≠ [] →
    (∃ obj, R.renderBundle accepted = .ok obj ∧ w.live = some obj) ∧ w.lastApplied.isSome = true
  /-- Nothing is deployed any more once each rule was refused on its own. -/
  gone : accepted = [] → suspects.length ≤ quarantineProbeLimit → w.live = none ∧
    w.lastApplied = none
  stuck : accepted = [] → quarantineProbeLimit < suspects.length →
    w.live = some stored ∧ w.lastApplied = some baseline
  synced : ∀ r ∈ accepted, w.statusOf r.id = some .synced
  error : ∀ r ∈ suspects, r ∉ accepted → ∃ reason, w.statusOf r.id = some (.error reason)

section Retry

variable {R : Renderer} {ok : Entry → Bool} {reject : ApiError}

theorem lastApplied_markAll (w : World) (rules : List AlertRule) (s : Status) :
    (w.markAll rules s).lastApplied = w.lastApplied := by
  unfold World.markAll
  induction rules generalizing w with
  | nil => rfl
  | cons r rules ih => exact ih _

variable {w : World}

theorem deleteOwnedBundle_strict (ok : Entry → Bool) (reject : ApiError) {obj : Object}
    (live : w.live = some obj) (owned : obj.ownedByConsole = true) :
    (deleteOwnedBundle (strict ok reject) w).2 = true ∧
      (deleteOwnedBundle (strict ok reject) w).1.live = none ∧
      (deleteOwnedBundle (strict ok reject) w).1.statuses = w.statuses := by
  simp only [deleteOwnedBundle, get_strict, live, deleteIfOwned, owned, if_true]
  exact ⟨rfl, rfl, rfl⟩

theorem probe_strict (S : RuleSet R) (content : isContentRejection reject = true) {stored : Object}
    {baseline desired : GoMap String String} {keep suspects : List AlertRule}
    (perm : (keep ++ suspects).Perm S.rules) (fine : keep.all (R.fine ok) = true)
    (blamed : suspects ≠ []) (owned : stored.ownedByConsole = true)
    (none : keep = [] → w.live = some stored)
    (some : keep ≠ [] → ∃ obj, R.renderBundle keep = .ok obj ∧ w.live = .some obj)
    (lastApplied : w.lastApplied = .some baseline)
    (marked : ∀ r ∈ suspects, ∃ reason, w.statusOf r.id = .some (.error reason)) :
    Settled R (keep ++ (suspects.take quarantineProbeLimit).filter
      (R.fine ok)) suspects stored baseline
      (probe R (strict ok reject) w S.rules keep (suspects.map AlertRule.id) desired) := by
  have listed : keep ++ suspects ⊆ S.rules := perm.subset
  obtain ⟨took, probes, inconclusive, same⟩ := offers_strict ok content S.ids
    { world := w, accepted := keep } (fun r mem => listed (List.mem_append_right _ mem))
    (fun r mem => S.renders r (listed mem)) ((perm.map _).nodup_iff.mpr S.alerts) fine
  have sound :
    Probing.Sound R S.rules w (suspects.map AlertRule.id) { world := w, accepted := keep } :=
    ⟨fun _ => rfl, some, rfl, fun r mem => listed (List.mem_append_left _ mem), by
      simpa using (perm.map AlertRule.id).nodup_iff.mpr S.ids⟩
  have offered := sound.offers (quiet_strict ok reject)
  have grown := accepted_offers R (strict ok reject) S.rules { world := w, accepted := keep }
    (suspects.map AlertRule.id)
  unfold probe
  generalize (suspects.map AlertRule.id).foldl (Probing.offer R (strict ok reject) S.rules)
    { world := w, accepted := keep } = s at *
  dsimp only at took probes inconclusive same grown ⊢
  rw [Nat.sub_zero] at took probes
  rw [← took]
  obtain ⟨live, statuses⟩ := adopt_spec (s.world.markAll s.accepted .synced) s.accepted desired
  have given : ∀ id, (adopt (s.world.markAll s.accepted .synced) s.accepted desired).statusOf id =
      if id ∈ s.accepted.map AlertRule.id then .some .synced else w.statusOf id := by
    intro id
    rw [World.statusOf, statuses, ← World.statusOf, World.statusOf_markAll, World.statusOf,
      offered.statuses, ← World.statusOf]
  have synced : ∀ r ∈ s.accepted, r.id ∈ s.accepted.map AlertRule.id := fun r => List.mem_map_of_mem
  have error : ∀ r ∈ suspects, r ∉ s.accepted → r.id ∉ s.accepted.map AlertRule.id := by
    intro r mem out same
    obtain ⟨q, taken, id⟩ := List.mem_map.mp same
    have rule := listed (List.mem_append_right _ mem)
    exact out (List.inj_on_of_nodup_map S.ids (offered.listed taken) rule id ▸ taken)
  by_cases empty : s.accepted = []
  · have kept : keep = [] := List.prefix_nil.mp (empty ▸ grown)
    have adopted : adopt (s.world.markAll s.accepted .synced) s.accepted desired = s.world := by
      simp [empty, adopt, World.markAll]
    have before := (offered.none empty).trans (none kept)
    rw [adopted] at given ⊢
    have probed : s.probes = min suspects.length quarantineProbeLimit := by omega
    by_cases all : suspects.length ≤ quarantineProbeLimit
    · obtain ⟨gone, live, kept⟩ := deleteOwnedBundle_strict ok reject before owned
      rw [if_pos (by simp [empty, probed, inconclusive, blamed, all]), if_pos gone]
      refine ⟨fun some => absurd empty some, fun _ _ => ⟨live, rfl⟩,
        fun _ many => absurd all (Nat.not_le.mpr many), by simp [empty], fun r mem out => ?_⟩
      rw [World.statusOf, kept, ← World.statusOf, given, if_neg (error r mem out)]
      exact marked r mem
    · have unfinished : s.probes ≠ suspects.length := by omega
      rw [if_neg (by simp [unfinished])]
      refine ⟨fun some => absurd empty some, fun _ few => absurd few all,
        fun _ _ => ⟨before, same.trans lastApplied⟩, by simp [empty], fun r mem out => ?_⟩
      rw [given, if_neg (error r mem out)]
      exact marked r mem
  · obtain ⟨obj, rendered, held⟩ := offered.some empty
    rw [if_neg (by simp [empty])]
    refine ⟨fun _ => ⟨⟨obj, rendered, ?_⟩, ?_⟩, fun none => absurd none empty, fun none =>
      absurd none empty,
      fun r taken => ?_, fun r mem out => ?_⟩
    · rw [live, live_markAll, held]
    · rw [adopt, if_neg empty]
      rfl
    · rw [given, if_pos (synced r taken)]
    · rw [given, if_neg (error r mem out)]
      exact marked r mem

theorem retry_strict (S : RuleSet R) (content : isContentRejection reject = true)
    {stored desired : Object} {baseline : GoMap String String} (taken : Taken R ok baseline)
    (rendered : R.renderBundle S.rules = .ok desired) (refused : S.rules.all (R.fine ok) = false)
    (owned : stored.ownedByConsole = true) (live : w.live = some stored)
    (lastApplied : w.lastApplied = some baseline) (cause : ApiError) :
    ∃ w', retryWithLastApplied R (strict ok reject) w S.rules baseline
        (R.ruleFingerprints desired.entries) cause = some w' ∧
      Settled R (S.rules.filter (R.deployedAs baseline) ++
          ((S.rules.filter (!R.deployedAs baseline ·)).take quarantineProbeLimit).filter
            (R.fine ok))
        (S.rules.filter (!R.deployedAs baseline ·)) stored baseline w' := by
  have keep : S.rules.filter (unchanged baseline (R.ruleFingerprints desired.entries)) =
      S.rules.filter (R.deployedAs baseline) :=
    List.filter_congr fun r row => unchanged_eq rendered S.ids baseline row
  have suspects :
    S.rules.filter (fun r => !unchanged baseline (R.ruleFingerprints desired.entries) r) =
      S.rules.filter (!R.deployedAs baseline ·) :=
    List.filter_congr fun r row => by rw [unchanged_eq rendered S.ids baseline row]
  have perm : (S.rules.filter (R.deployedAs baseline) ++
      S.rules.filter (!R.deployedAs baseline ·)).Perm S.rules := List.filter_append_perm _ _
  have fine : (S.rules.filter (R.deployedAs baseline)).all (R.fine ok) = true := by
    refine List.all_eq_true.mpr fun r mem => fine_of_deployedAs taken ?_
    exact (List.mem_filter.mp mem).2
  have blamed : S.rules.filter (!R.deployedAs baseline ·) ≠ [] := by
    intro none
    obtain ⟨r, row, bad⟩ := List.all_eq_false.mp refused
    have unchanged := List.filter_eq_nil_iff.mp none r row
    exact bad (fine_of_deployedAs taken (by simpa using unchanged))
  unfold retryWithLastApplied
  dsimp only
  rw [keep, suspects, if_neg (by simpa using blamed)]
  generalize S.rules.filter (R.deployedAs baseline) = keep at perm fine
  generalize S.rules.filter (!R.deployedAs baseline ·) = suspects at perm blamed
  have marked :
    ∀ r ∈ suspects, ∃ reason, (w.markAll suspects (.error (.refused cause))).statusOf r.id =
      some (.error reason) := by
    intro r mem
    exact ⟨_, by rw [World.statusOf_markAll, if_pos (List.mem_map_of_mem mem)]⟩
  have same : (w.markAll suspects (.error (.refused cause))).live = some stored :=
    (live_markAll _ _ _).trans live
  have known : (w.markAll suspects (.error (.refused cause))).lastApplied = some baseline :=
    (lastApplied_markAll _ _ _).trans lastApplied
  generalize w.markAll suspects (.error (.refused cause)) = w₁ at marked same known
  by_cases empty : keep = []
  · rw [if_pos empty]
    exact ⟨_, rfl, probe_strict S content perm fine blamed owned (fun _ => same)
      (fun some => absurd empty some) known marked⟩
  · have renders : ∀ r ∈ keep, (R.entryOf r).isSome :=
      fun r mem => S.renders r (perm.subset (List.mem_append_left _ mem))
    have alerts : (keep.map R.alertOf).Nodup :=
      ((List.sublist_append_left keep suspects).map _).nodup ((perm.map _).nodup_iff.mpr S.alerts)
    obtain ⟨obj, bundle⟩ := renderBundle_ok renders alerts
    rw [if_neg empty, bundle]
    dsimp only
    rw [apply_strict ok reject bundle, if_pos fine]
    exact ⟨_, rfl, probe_strict S content perm fine blamed owned (fun none => absurd none empty)
      (fun _ => ⟨obj, bundle, rfl⟩) known marked⟩

end Retry

/-! ## One pass -/

section Passes

variable {R : Renderer} (S : RuleSet R) (ok : Entry → Bool) (reject : ApiError)

def RuleSet.pass : World → World := reconcileLocked R (strict ok reject) S.rules

/-- The rules a pass deploys when the whole bundle is refused. -/
def RuleSet.accepted (bundle : GoMap String String) : List AlertRule :=
  S.rules.filter (R.deployedAs bundle) ++
    ((S.rules.filter (!R.deployedAs bundle ·)).take quarantineProbeLimit).filter (R.fine ok)

/-- The console's own object is stored, and the next pass will fall back to `bundle`. -/
structure Holding (R : Renderer) (ok : Entry → Bool) (w : World) (stored : Object)
    (bundle : GoMap String String) : Prop where
  live : w.live = some stored
  owned : stored.ownedByConsole = true
  baseline : baseline R (.ok stored) w.lastApplied = some bundle
  taken : Taken R ok bundle

variable {S ok reject}

theorem RuleSet.mem_accepted {r : AlertRule} : r ∈ S.accepted ok bundle ↔ r ∈ S.rules ∧
      Rounds.round S.rules (R.fine ok) quarantineProbeLimit (R.deployedAs bundle) r = true := by
  have row : r ∈ (S.rules.filter (!R.deployedAs bundle ·)).take quarantineProbeLimit →
    r ∈ S.rules := fun mem => (List.mem_filter.mp (List.mem_of_mem_take mem)).1
  simp only [accepted, Rounds.round, List.mem_append, List.mem_filter, Bool.or_eq_true,
    Bool.and_eq_true, decide_eq_true_iff]
  grind

theorem pass_eq (w : World) : S.pass ok reject w =
    deploy R (strict ok reject) (seed R (w.tick (strict ok reject)) (w.get (strict ok reject)).2)
      (w.get (strict ok reject)).2 S.rules := by
  rw [RuleSet.pass, reconcileLocked]
  have got : (w.get (strict ok reject)).1 = w.tick (strict ok reject) := rfl
  simp only [prepare_ruleSet, got]

theorem exists_bundle (S : RuleSet R) : ∃ obj, R.renderBundle S.rules = .ok obj :=
  renderBundle_ok S.renders S.alerts

variable {w : World}

theorem pass_refused (content : isContentRejection reject = true) (other : classify reject = .other)
    {stored : Object} (holding : Holding R ok w stored bundle)
    (refused : S.rules.all (R.fine ok) = false) :
    Settled R (S.accepted ok bundle) (S.rules.filter (!R.deployedAs bundle ·)) stored bundle
      (S.pass ok reject w) := by
  obtain ⟨desired, rendered⟩ := exists_bundle S
  have rules : S.rules ≠ [] := by
    intro none
    simp [none] at refused
  have got : (w.get (strict ok reject)).2 = .ok stored := by rw [get_strict, holding.live]
  have live : (w.tick (strict ok reject)).live = some stored :=
    (tick_live (quiet_strict ok reject) w).trans holding.live
  rw [pass_eq, got, deploy, if_neg rules, rendered]
  dsimp only
  rw [if_pos holding.owned, applyAll, apply_strict ok reject rendered, if_neg (by simp [refused])]
  have known :
    ((seed R (w.tick (strict ok reject)) (.ok stored)).issue (strict ok reject)).lastApplied =
      some bundle := holding.baseline
  have same : ((seed R (w.tick (strict ok reject)) (.ok stored)).issue (strict ok reject)).live =
      some stored := (tick_live (quiet_strict ok reject) _).trans live
  obtain ⟨w', retried, settled⟩ :=
    retry_strict S content holding.taken rendered refused holding.owned
    same known reject
  simp only [known, other, content, and_self, if_true, retried, Option.getD_some]
  exact settled

theorem RuleSet.accepted_ids (S : RuleSet R) (ok : Entry → Bool) (bundle : GoMap String String) :
    ((S.accepted ok bundle).map AlertRule.id).Nodup := by
  have sublist : (S.accepted ok bundle).Sublist (S.rules.filter (R.deployedAs bundle) ++
      S.rules.filter (!R.deployedAs bundle ·)) :=
    (List.filter_sublist.trans (List.take_sublist _ _)).append_left _
  refine (sublist.map _).nodup ?_
  exact ((List.filter_append_perm _ S.rules).map _).nodup_iff.mpr S.ids

theorem entries_ne_nil {accepted : List AlertRule} {obj : Object}
    (rendered : R.renderBundle accepted = .ok obj) (unique : (accepted.map AlertRule.id).Nodup)
    (some : accepted ≠ []) : (R.ruleFingerprints obj.entries).entries ≠ [] := by
  obtain ⟨r, taken⟩ := List.exists_mem_of_ne_nil _ some
  obtain ⟨e, -, lookup⟩ := lookup_bundle rendered unique taken
  intro empty
  have none : R.ruleFingerprints obj.entries = ∅ := AList.ext empty
  simp [none] at lookup

theorem baseline_idem {got : Except ApiError Object} {last : Option (GoMap String String)}
    (first : baseline R got last = some bundle) : baseline R got (some bundle) = some bundle := by
  unfold baseline at first ⊢
  split
  · rfl
  · dsimp only at first ⊢
    split
    · rename_i seeded
      rwa [if_pos seeded] at first
    · rfl

/-- When nothing is accepted, nothing was kept, and the rules cannot have been offered all. -/
theorem RuleSet.unreached_of_accepted_nil (empty : S.accepted ok bundle = [])
    (usable : S.rules.any (R.fine ok) = true ∨ quarantineProbeLimit < S.rules.length) :
    quarantineProbeLimit < (S.rules.filter (!R.deployedAs bundle ·)).length := by
  have out : ∀ r ∈ S.rules, Rounds.round S.rules (R.fine ok) quarantineProbeLimit
      (R.deployedAs bundle) r = false := by
    intro r row
    have none : r ∉ S.accepted ok bundle := by simp [empty]
    simpa [mem_accepted, row] using none
  have suspects : S.rules.filter (!R.deployedAs bundle ·) = S.rules :=
    List.filter_eq_self.mpr fun r row => by simp [Rounds.out_of_round (out r row)]
  rw [suspects]
  refine usable.elim (fun any => ?_) id
  by_contra all
  obtain ⟨r, row, fine⟩ := List.any_eq_true.mp any
  have offered : r ∈ S.rules.take quarantineProbeLimit := by
    rwa [List.take_of_length_le (Nat.not_lt.mp all)]
  have refused := out r row
  simp [Rounds.round, suspects, offered, fine] at refused

/-- The bundle a pass ends with is what the next one falls back to. -/
theorem holding_bundle {accepted : List AlertRule} {obj : Object}
    (rendered : R.renderBundle accepted = .ok obj) (live : w.live = some obj)
    (unique : (accepted.map AlertRule.id).Nodup) (some : accepted ≠ [])
    (fine : accepted.all (R.fine ok) = true) :
    Holding R ok w obj (R.ruleFingerprints obj.entries) := by
  have owned : obj.ownedByConsole = true := decide_eq_true (renderBundle_eq rendered).1
  refine ⟨live, owned, ?_, .ruleFingerprints (all_entries rendered ▸ fine)⟩
  simp [baseline, owned, entries_ne_nil rendered unique some]

/-- A pass over a refused bundle is a round, unless every rule was refused on its own. -/
theorem Holding.pass (content : isContentRejection reject = true) (other : classify reject = .other)
    {stored : Object} (holding : Holding R ok w stored bundle)
    (refused : S.rules.all (R.fine ok) = false)
    (usable : S.rules.any (R.fine ok) = true ∨ quarantineProbeLimit < S.rules.length) :
    ∃ stored' bundle', Holding R ok (S.pass ok reject w) stored' bundle' ∧
      (S.rules.any (R.fine ok) = false → stored' = stored) ∧ ∀ r ∈ S.rules, R.deployedAs bundle' r =
        Rounds.round S.rules (R.fine ok) quarantineProbeLimit (R.deployedAs bundle) r := by
  have settled := pass_refused content other holding refused
  have unique := S.accepted_ids ok bundle
  have listed : S.accepted ok bundle ⊆ S.rules := fun r mem => (RuleSet.mem_accepted.mp mem).1
  have fine : ∀ r ∈ S.accepted ok bundle, R.fine ok r = true := fun r mem =>
    Rounds.good_of_round (fun _ => fine_of_deployedAs holding.taken) (RuleSet.mem_accepted.mp mem).2
  by_cases empty : S.accepted ok bundle = []
  · obtain ⟨live, lastApplied⟩ :=
      settled.stuck empty (RuleSet.unreached_of_accepted_nil empty usable)
    refine ⟨stored, bundle, ⟨live, holding.owned, ?_, holding.taken⟩, fun _ => rfl, fun r row => ?_⟩
    · rw [lastApplied]
      exact baseline_idem holding.baseline
    · have none : r ∉ S.accepted ok bundle := by simp [empty]
      have out : Rounds.round S.rules (R.fine ok) quarantineProbeLimit (R.deployedAs bundle) r =
        false := by
        simpa [RuleSet.mem_accepted, row] using none
      rw [out, Rounds.out_of_round out]
  · obtain ⟨⟨obj, rendered, live⟩, -⟩ := settled.bundle empty
    refine ⟨obj, _, holding_bundle rendered live unique empty (List.all_eq_true.mpr fine), ?_, ?_⟩
    · intro none
      obtain ⟨r, taken⟩ := List.exists_mem_of_ne_nil _ empty
      exact absurd (fine r taken) (by simpa using List.any_eq_false.mp none r (listed taken))
    · intro r row
      rw [deployedAs_bundle rendered listed S.ids unique row, Bool.eq_iff_iff, decide_eq_true_iff,
        RuleSet.mem_accepted]
      exact and_iff_right row

end Passes

end Kconmon.Console.PromRules
