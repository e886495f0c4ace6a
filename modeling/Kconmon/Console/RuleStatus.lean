import Kconmon.Console.PromRules
import Kconmon.Lib.Lists
import Mathlib.Data.List.Perm.Basic

/-!
# What a synced rule means

A pass may apply, fall back, offer, restore and delete, and any of these calls may fail. Whatever
the answers, it ends in one of three ways: the object is as it was and no rule is called deployed,
the object is gone and no rule is called deployed, or the object is the bundle of some rules and
exactly these are called deployed.
-/
namespace Kconmon.Console.PromRules
open Lib

/-- The last status says that the rule is in the cluster. -/
def World.deployed (w : World) (id : String) : Bool :=
  match w.statusOf id with
  | some .synced | some .drift => true
  | some (.error _) | none => false

def Renderer.entryOf (R : Renderer) (r : AlertRule) : Option Entry :=
  match R.ruleEntry r with
  | .ok (e, _) => some e
  | .error _ => none

/-- Nobody else writes the object. -/
def Cluster.Quiet (cl : Cluster) : Prop := ∀ n obj, cl.others n obj = some obj

/-! ## Bundles -/

theorem Renderer.entries_of_collect {R : Renderer} {seen : List (String × String)}
    {rules : List AlertRule} {entries : List Entry} (collected :
      R.collect seen rules = .ok entries) :
    rules.map R.entryOf = entries.map some ∧ rules.map AlertRule.id = entries.map Entry.id := by
  induction rules generalizing seen entries with
  | nil =>
    cases collected
    exact ⟨rfl, rfl⟩
  | cons r rules ih =>
    unfold collect at collected
    cases rendered : R.ruleEntry r with
    | error err => simp [rendered, bind, Except.bind] at collected
    | ok p =>
      obtain ⟨e, alert⟩ := p
      simp only [rendered, bind, Except.bind] at collected
      split at collected
      · cases collected
      · cases rest : R.collect ((alert, r.name) :: seen) rules with
        | error err => simp [rest] at collected
        | ok es =>
          simp only [rest, pure, Except.pure, Except.ok.injEq] at collected
          subst collected
          simp [ih rest, entryOf, rendered, (R.labelled rendered).1]

theorem Renderer.entries_of_renderBundle {R : Renderer} {rules : List AlertRule} {obj : Object}
    (rendered : R.renderBundle rules = .ok obj) :
    (obj.entries.map some).Perm (rules.map R.entryOf) ∧
      (obj.entries.map Entry.id).Perm (rules.map AlertRule.id) := by
  obtain ⟨entries, ids⟩ := entries_of_collect (renderBundle_eq rendered).2
  rw [← entries, ← ids]
  exact ⟨(List.perm_insertionSort _ rules).map _, (List.perm_insertionSort _ rules).map _⟩

theorem Renderer.id_of_entryOf {R : Renderer} {r : AlertRule} {e : Entry}
    (rendered : R.entryOf r = some e) : e.id = r.id := by
  unfold entryOf at rendered
  split at rendered <;> cases rendered
  rename_i ok
  exact (R.labelled ok).1

/-- In the bundle of rules with distinct ids, a rule's id names its entry only. -/
theorem Renderer.entry_of_renderBundle {R : Renderer} {rules : List AlertRule} {obj : Object}
    (rendered : R.renderBundle rules = .ok obj) (distinct : (rules.map AlertRule.id).Nodup)
    {r : AlertRule} (bundled : r ∈ rules) :
    ∃ e, R.entryOf r = some e ∧ obj.entries.filter (·.id = r.id) = [e] := by
  obtain ⟨perm, ids⟩ := entries_of_renderBundle rendered
  obtain ⟨e, listed, same⟩ : ∃ e ∈ obj.entries, some e = R.entryOf r :=
    List.mem_map.mp (perm.mem_iff.mpr (List.mem_map_of_mem bundled))
  refine ⟨e, same.symm, ?_⟩
  rw [← id_of_entryOf same.symm]
  exact filter_key_eq_singleton (ids.nodup_iff.mpr distinct) listed

/-! ## Statuses -/

namespace World

variable {w w' : World}

theorem statusOf_markAll (w : World) (rules : List AlertRule) (s : Status) (id : String) :
    (w.markAll rules s).statusOf id =
      if id ∈ rules.map AlertRule.id then some s else w.statusOf id := by
  unfold markAll
  induction rules generalizing w with
  | nil => simp
  | cons r rules ih =>
    rw [List.foldl_cons, ih]
    by_cases later : id ∈ rules.map AlertRule.id
    · simp [later]
    · by_cases now : id = r.id
      · simp [now, setStatus, statusOf]
      · simp [later, now, setStatus, statusOf, List.lookup_cons, beq_eq_false_iff_ne.mpr now]

/-- No rule was given a status other than an error. -/
def AllErrors (w : World) : Prop := ∀ m ∈ w.statuses, m.2.isError = true

section
variable (errors : w.AllErrors)
include errors

theorem AllErrors.congr (statuses : w'.statuses = w.statuses) :
    w'.AllErrors := fun m given => errors m (statuses ▸ given)

theorem AllErrors.marked (marked : Marked w w') : w'.AllErrors := by
  obtain ⟨marks, statuses, new⟩ := marked.statuses
  intro m given
  rw [statuses] at given
  exact (List.mem_append.mp given).elim (new m) (errors m)

theorem AllErrors.deployed (id : String) : w.deployed id = false := by
  unfold World.deployed
  cases given : w.statusOf id with
  | none => rfl
  | some s =>
    obtain ⟨newer, older, statuses, -⟩ := List.lookup_eq_some_iff.mp given
    have error := errors (id, s) (by simp [statuses])
    cases s <;> simp_all [Status.isError]

theorem AllErrors.deployed_markAll (rules : List AlertRule) {s : Status}
    (good : s.isError = false) (id : String) :
    (w.markAll rules s).deployed id = true ↔ id ∈ rules.map AlertRule.id := by
  unfold World.deployed
  rw [statusOf_markAll]
  by_cases marked : id ∈ rules.map AlertRule.id
  · cases s <;> simp_all [Status.isError]
  · have undeployed := errors.deployed id
    unfold World.deployed at undeployed
    simp [marked, undeployed]

end

end World

/-! ## How a pass can end -/

/-- The three ways, for a pass over `rows` that began with `stored` under the bundle's name. -/
inductive Outcome (R : Renderer) (rows : List AlertRule) (stored : Option Object) (w : World) : Prop
  | asBefore (live : w.live = stored) (none : ∀ id, w.deployed id = false)
  | gone (live : w.live = none) (none : ∀ id, w.deployed id = false)
  | bundle (accepted : List AlertRule) (obj : Object) (some : accepted ≠ [])
      (distinct : (accepted.map AlertRule.id).Nodup) (listed : accepted ⊆ rows)
      (rendered : R.renderBundle accepted = .ok obj) (live : w.live = .some obj)
      (exact : ∀ id, w.deployed id = true ↔ id ∈ accepted.map AlertRule.id)

section Calls

variable {R : Renderer} {cl : Cluster} {w : World}

theorem tick_live (quiet : cl.Quiet) (w : World) : (w.tick cl).live = w.live := by
  cases stored : w.live with
  | none => simp [World.tick, stored]
  | some obj => simpa [World.tick, stored] using quiet w.calls obj

theorem apply_spec (quiet : cl.Quiet) (w : World) (obj : Object) :
    (w.apply cl obj).1.statuses = w.statuses ∧
      ((w.apply cl obj).2 = none → (w.apply cl obj).1.live = some obj) ∧
      ∀ err, (w.apply cl obj).2 = some err → (w.apply cl obj).1.live = w.live := by
  unfold World.apply
  split
  · exact ⟨rfl, fun none => (nomatch none), fun _ _ => tick_live quiet w⟩
  · exact ⟨rfl, fun _ => rfl, fun _ some => nomatch some⟩

theorem deleteIfOwned_spec (quiet : cl.Quiet) (w : World) (got : Except ApiError Object) :
    (deleteIfOwned cl w got).1.statuses = w.statuses ∧
      ((deleteIfOwned cl w got).1.live = w.live ∨ (deleteIfOwned cl w got).1.live = none) := by
  unfold deleteIfOwned
  split
  · exact ⟨rfl, .inl rfl⟩
  · split
    · unfold World.deleteExact
      split
      · exact ⟨rfl, .inl (tick_live quiet w)⟩
      · exact ⟨rfl, .inr rfl⟩
    · exact ⟨rfl, .inl rfl⟩

theorem Outcome.of_deleted {rows : List AlertRule} {w' : World} (errors : w.AllErrors)
    (statuses : w'.statuses = w.statuses) (live : w'.live = w.live ∨ w'.live = none) :
    Outcome R rows w.live w' := by
  have none := (errors.congr statuses).deployed
  exact live.elim (.asBefore · none) (.gone · none)

end Calls

/-! ## Offering rules one at a time -/

/-- What is stored is the bundle of the accepted rules, or untouched while there are none; `rest`
is still to be offered. -/
structure Probing.Sound (R : Renderer) (rules : List AlertRule) (w : World) (rest : List String)
    (s : Probing) : Prop where
  none : s.accepted = [] → s.world.live = w.live
  some : s.accepted ≠ [] → ∃ obj, R.renderBundle s.accepted = .ok obj ∧ s.world.live = .some obj
  statuses : s.world.statuses = w.statuses
  listed : s.accepted ⊆ rules
  distinct : (s.accepted.map AlertRule.id ++ rest).Nodup

section Offers

variable {R : Renderer} {cl : Cluster} {w : World} {rules : List AlertRule} {s : Probing}

theorem restore_spec (quiet : cl.Quiet) (w : World) (accepted : List AlertRule)
    (held : accepted ≠ [] → ∃ obj, R.renderBundle accepted = .ok obj ∧ w.live = some obj) :
    (restore R cl w accepted).statuses = w.statuses ∧ (restore R cl w accepted).live = w.live := by
  unfold restore
  split
  · exact ⟨rfl, rfl⟩
  · rename_i some
    obtain ⟨obj, rendered, live⟩ := held some
    rw [rendered]
    obtain ⟨statuses, success, failure⟩ := apply_spec quiet w obj
    refine ⟨statuses, ?_⟩
    cases answer : (w.apply cl obj).2 with
    | none => exact (success answer).trans live.symm
    | some err => exact failure err answer

theorem Probing.Sound.drop {id : String} {rest : List String}
    (sound : Sound R rules w (id :: rest) s) : Sound R rules w rest s :=
  ⟨sound.none, sound.some, sound.statuses, sound.listed,
    sound.distinct.sublist ((List.sublist_cons_self _ _).append_left _)⟩

theorem Probing.Sound.offer (quiet : cl.Quiet) {id : String} {rest : List String}
    (sound : Sound R rules w (id :: rest) s) : Sound R rules w rest (offer R cl rules s id) := by
  unfold Probing.offer
  split
  · exact sound.drop
  · split
    · exact sound.drop
    · rename_i rule found
      obtain rfl : rule.id = id := by simpa using List.find?_some found
      dsimp only
      split
      · have dropped := sound.drop
        exact ⟨dropped.none, dropped.some, dropped.statuses, dropped.listed, dropped.distinct⟩
      · rename_i obj rendered
        obtain ⟨statuses, success, failure⟩ := apply_spec quiet s.world obj
        split
        · rename_i w' answer
          rw [answer] at statuses success
          refine ⟨by simp, fun _ => ⟨obj, rendered, success rfl⟩, statuses.trans sound.statuses, ?_,
            ?_⟩
          · simpa using ⟨sound.listed, List.mem_of_find?_eq_some found⟩
          · simpa using sound.distinct
        · rename_i w' err answer
          rw [answer] at statuses failure
          have live := failure err rfl
          obtain ⟨kept, same⟩ := restore_spec (R := R) quiet w' s.accepted
            fun some => live ▸ sound.some some
          refine ⟨fun none => ?_, fun some => ?_, (kept.trans statuses).trans sound.statuses,
            sound.listed, sound.drop.distinct⟩
          · exact (same.trans live).trans (sound.none none)
          · obtain ⟨obj, rendered, held⟩ := sound.some some
            exact ⟨obj, rendered, (same.trans live).trans held⟩

theorem Probing.Sound.offers (quiet : cl.Quiet) {ids : List String}
    (sound : Sound R rules w ids s) :
    Sound R rules w [] (ids.foldl (Probing.offer R cl rules) s) := by
  induction ids generalizing s with
  | nil => exact sound
  | cons id ids ih => exact ih (sound.offer quiet)

theorem accepted_offer (R : Renderer) (cl : Cluster) (rules : List AlertRule) (s : Probing)
    (id : String) : s.accepted <+: (s.offer R cl rules id).accepted := by
  unfold Probing.offer
  split
  · exact List.prefix_rfl
  · split
    · exact List.prefix_rfl
    · dsimp only
      split
      · exact List.prefix_rfl
      · split
        · exact List.prefix_append _ _
        · exact List.prefix_rfl

theorem accepted_offers (R : Renderer) (cl : Cluster) (rules : List AlertRule) (s : Probing)
    (ids : List String) : s.accepted <+: (ids.foldl (Probing.offer R cl rules) s).accepted := by
  induction ids generalizing s with
  | nil => exact List.prefix_rfl
  | cons id ids ih => exact (accepted_offer R cl rules s id).trans (ih _)

end Offers

/-! ## The parts of a pass -/

section Outcomes

variable {R : Renderer} {cl : Cluster} {w : World} {rows rules : List AlertRule}

theorem adopt_spec (w : World) (accepted : List AlertRule) (desired : GoMap String String) :
    (adopt w accepted desired).live = w.live ∧ (adopt w accepted desired).statuses = w.statuses :=
      by
  unfold adopt
  split <;> exact ⟨rfl, rfl⟩

theorem live_markAll (w : World) (rules : List AlertRule) (s : Status) :
    (w.markAll rules s).live = w.live := by
  unfold World.markAll
  induction rules generalizing w with
  | nil => rfl
  | cons r rules ih => exact ih _

theorem deployed_congr {w w' : World} (statuses : w'.statuses = w.statuses) (id : String) :
    w'.deployed id = w.deployed id := by
  simp only [World.deployed, World.statusOf, statuses]

section
variable (quiet : cl.Quiet)
include quiet

section
variable (errors : w.AllErrors)
include errors

/-- The offers of a pass, from a world in which what was kept is stored. -/
theorem Outcome.probe {stored : Option Object}
    {keep : List AlertRule} {quarantined : List String} (desired : GoMap String String)
    (sound : Probing.Sound R rules w quarantined { world := w, accepted := keep })
    (before : keep = [] → w.live = stored) (listed : rules ⊆ rows) :
    Outcome R rows stored (probe R cl w rules keep quarantined desired) := by
  have offered := sound.offers quiet
  unfold PromRules.probe
  generalize ran : quarantined.foldl (Probing.offer R cl rules) { world := w, accepted := keep } = s
    at offered ⊢
  have errors := errors.congr offered.statuses
  dsimp only
  obtain ⟨live, statuses⟩ := adopt_spec (s.world.markAll s.accepted .synced) s.accepted desired
  by_cases none : s.accepted = []
  · have kept : keep = [] := by
      have grown := accepted_offers R cl rules { world := w, accepted := keep } quarantined
      rw [ran, none] at grown
      exact List.prefix_nil.mp grown
    have same : s.world.live = stored := (offered.none none).trans (before kept)
    have adopted : adopt (s.world.markAll s.accepted .synced) s.accepted desired = s.world := by
      simp [none, adopt, World.markAll]
    rw [adopted]
    split
    · have got := tick_live quiet s.world
      obtain ⟨statuses, live⟩ := deleteIfOwned_spec quiet (s.world.tick cl) (s.world.get cl).2
      rw [got, same] at live
      split
      · exact same ▸ .of_deleted errors statuses (same.symm ▸ live)
      · exact same ▸ .of_deleted errors statuses (same.symm ▸ live)
    · exact .asBefore same errors.deployed
  · rw [if_neg (by simp [none])]
    obtain ⟨obj, rendered, held⟩ := offered.some none
    refine .bundle s.accepted obj none (by simpa using offered.distinct)
      (List.Subset.trans offered.listed listed) rendered
      ((live.trans (live_markAll _ _ _)).trans held) fun id => ?_
    rw [deployed_congr statuses]
    exact errors.deployed_markAll s.accepted rfl id

theorem Outcome.retry
    (distinct : (rules.map AlertRule.id).Nodup) (listed : rules ⊆ rows)
    {lastApplied desired : GoMap String String} {cause : ApiError} {w' : World}
    (retried : retryWithLastApplied R cl w rules lastApplied desired cause = some w') :
    Outcome R rows w.live w' := by
  unfold retryWithLastApplied at retried
  dsimp only at retried
  split at retried
  · cases retried
  · have marked := World.Marked.markAll w
      (rules.filter fun r => !unchanged lastApplied desired r) (.refused cause)
    have errors := errors.marked marked
    have live := marked.live
    generalize w.markAll (rules.filter fun r => !unchanged lastApplied desired r)
      (.error (.refused cause)) = w₁ at retried errors live
    -- What did not change and what did share no id.
    have split_ids : ((rules.filter (unchanged lastApplied desired)).map AlertRule.id ++
        (rules.filter fun r => !unchanged lastApplied desired r).map AlertRule.id).Nodup := by
      rw [← List.map_append]
      exact ((List.filter_append_perm _ rules).map _).nodup_iff.mpr distinct
    have kept : rules.filter (unchanged lastApplied desired) ⊆ rules := List.filter_sublist.subset
    generalize rules.filter (unchanged lastApplied desired) = keep at retried split_ids kept
    split at retried
    · rename_i none
      cases retried
      exact .probe quiet errors desired ⟨fun _ => rfl, fun some => absurd none some, rfl, kept,
        split_ids⟩
        (fun _ => live) listed
    · rename_i some
      split at retried
      · cases retried
        exact .asBefore live errors.deployed
      · rename_i obj rendered
        obtain ⟨statuses, success, failure⟩ := apply_spec quiet w₁ obj
        split at retried
        · rename_i w₂ err answer
          rw [answer] at statuses failure
          cases retried
          have errors : w₂.AllErrors := errors.congr statuses
          have marked := World.Marked.markAll w₂ keep (.cause (classify err) err)
          exact .asBefore ((marked.live.trans (failure err rfl)).trans live)
            (errors.marked marked).deployed
        · rename_i w₂ answer
          rw [answer] at statuses success
          cases retried
          have errors : w₂.AllErrors := errors.congr statuses
          exact .probe quiet errors desired ⟨fun none => absurd none some,
            fun _ => ⟨obj, rendered, success rfl⟩, rfl, kept, split_ids⟩
            (fun none => absurd none some) listed

theorem Outcome.applyAll (some : rules ≠ [])
    (distinct : (rules.map AlertRule.id).Nodup) (listed : rules ⊆ rows)
    (got : Except ApiError Object) {desired : Object} (rendered :
      R.renderBundle rules = .ok desired) :
    Outcome R rows w.live (applyAll R cl w got rules desired) := by
  obtain ⟨statuses, success, failure⟩ := apply_spec quiet w desired
  unfold PromRules.applyAll
  dsimp only
  split
  · rename_i w₁ answer
    rw [answer] at statuses success
    have errors : w₁.AllErrors := errors.congr statuses
    refine .bundle rules desired some distinct listed rendered
      ((live_markAll _ _ _).trans (success rfl)) fun id => ?_
    have good :
      (if compare desired got = true then Status.drift else Status.synced).isError = false := by
      split <;> rfl
    exact errors.deployed_markAll rules good id
  · rename_i w₁ err answer
    rw [answer] at statuses failure
    have live : w₁.live = w.live := failure err rfl
    have errors : w₁.AllErrors := errors.congr statuses
    have marked := World.Marked.markAll w₁ rules (.cause (classify err) err)
    have failed : Outcome R rows w.live (w₁.markAll rules (.error (.cause (classify err) err))) :=
      .asBefore (marked.live.trans live) (errors.marked marked).deployed
    split
    · split
      · rename_i baseline _ _
        cases retried : retryWithLastApplied R cl w₁ rules baseline
            (R.ruleFingerprints desired.entries) err with
        | none => simpa [retried] using failed
        | some w₂ => simpa [retried] using live ▸ Outcome.retry quiet errors distinct listed retried
      · exact failed
    · exact failed

theorem Outcome.deploy
    (distinct : (rules.map AlertRule.id).Nodup) (listed : rules ⊆ rows)
    (got : Except ApiError Object) : Outcome R rows w.live (deploy R cl w got rules) := by
  have failed : ∀ reason, Outcome R rows w.live (w.markAll rules (.error reason)) := by
    intro reason
    have marked := World.Marked.markAll w rules reason
    exact .asBefore marked.live (errors.marked marked).deployed
  unfold PromRules.deploy
  split
  · obtain ⟨statuses, live⟩ := deleteIfOwned_spec quiet w got
    exact .of_deleted errors statuses live
  · rename_i some
    split
    · exact failed _
    · rename_i desired rendered
      split
      · split
        · exact .applyAll quiet errors some distinct listed _ rendered
        · exact failed _
      · exact .applyAll quiet errors some distinct listed _ rendered

end

theorem Outcome.reconcileLocked (fresh : w.statuses = [])
    (distinct : (rows.map AlertRule.id).Nodup) :
    Outcome R rows w.live (reconcileLocked R cl rows w) := by
  obtain ⟨sublist, marked⟩ := prepare_spec R rows (w.tick cl) (w.get cl).2
  have errors : (seed R (w.tick cl) (w.get cl).2).AllErrors := by
    intro m given
    exact absurd given (by simp [seed, World.tick, fresh])
  have deployed : Outcome R rows _ (PromRules.deploy R cl _ (w.get cl).2 _) :=
    .deploy quiet (errors.marked marked) ((sublist.map _).nodup distinct) sublist.subset _
  rw [marked.live] at deployed
  exact tick_live quiet w ▸ deployed

end

end Outcomes

/-! ## The result -/

/-- The live bundle is made up of the entries of these rules, and is absent when there are none. -/
def Exactly (R : Renderer) (live : Option Object) (rules : List AlertRule) : Prop :=
  match live with
  | none => rules = []
  | some obj => rules ≠ [] ∧ (obj.entries.map some).Perm (rules.map R.entryOf)

theorem Outcome.perm {rows accepted : List AlertRule} {w : World}
    (distinct : (rows.map AlertRule.id).Nodup)
    (unique : (accepted.map AlertRule.id).Nodup) (listed : accepted ⊆ rows)
    (exact : ∀ id, w.deployed id = true ↔ id ∈ accepted.map AlertRule.id) :
    accepted.Perm (rows.filter fun r => w.deployed r.id) := by
  refine (List.perm_ext_iff_of_nodup unique.of_map (distinct.of_map.filter _)).mpr fun r => ?_
  rw [List.mem_filter, exact]
  constructor
  · exact fun kept => ⟨listed kept, List.mem_map_of_mem kept⟩
  · rintro ⟨row, id⟩
    obtain ⟨r', kept, same⟩ := List.mem_map.mp id
    exact List.inj_on_of_nodup_map distinct (listed kept) row same ▸ kept

/-- **Statuses do not overstate.** Whatever the cluster answers in a pass, a rule left synced or
drift has its entry in the live bundle and no other under its id; and if the pass changed the
bundle, the bundle is exactly the entries of these rules. -/
theorem deployed_of_status (R : Renderer) {cl : Cluster} (quiet : cl.Quiet) {rows : List AlertRule}
    (distinct : (rows.map AlertRule.id).Nodup) {w : World} (fresh : w.statuses = []) :
    (∀ r ∈ rows, (reconcileLocked R cl rows w).deployed r.id = true →
      ∃ obj e, (reconcileLocked R cl rows w).live = some obj ∧ R.entryOf r = some e ∧
        obj.entries.filter (·.id = r.id) = [e]) ∧ ((reconcileLocked R cl rows w).live ≠ w.live →
        Exactly R (reconcileLocked R cl rows w).live
          (rows.filter fun r => (reconcileLocked R cl rows w).deployed r.id)) := by
  have outcome : Outcome R rows w.live (reconcileLocked R cl rows w) :=
    .reconcileLocked quiet fresh distinct
  generalize reconcileLocked R cl rows w = w' at outcome
  cases outcome with
  | asBefore live none =>
    exact ⟨fun r _ deployed => by simp [none] at deployed, fun changed => absurd live changed⟩
  | gone live none =>
    refine ⟨fun r _ deployed => by simp [none] at deployed, fun _ => ?_⟩
    simp [Exactly, live, none]
  | bundle accepted obj some unique listed rendered live exact =>
    have perm := Outcome.perm distinct unique listed exact
    refine ⟨fun r row deployed => ?_, fun _ => ?_⟩
    · have kept : r ∈ accepted := perm.mem_iff.mpr (List.mem_filter.mpr ⟨row, deployed⟩)
      obtain ⟨e, entry, only⟩ := Renderer.entry_of_renderBundle rendered unique kept
      exact ⟨obj, e, live, entry, only⟩
    · rw [live]
      refine ⟨fun none => some (List.perm_nil.mp (none ▸ perm)), ?_⟩
      exact (Renderer.entries_of_renderBundle rendered).1.trans (perm.map _)

/-- Three rules, the second of which no cluster takes. -/
def threeRules : List AlertRule :=
  [{ id := "1", name := "One", updatedAt := 0, createdAt := 0, spec := "good" },
    { id := "2", name := "Two", updatedAt := 0, createdAt := 0, spec := "bad" },
    { id := "3", name := "Three", updatedAt := 0, createdAt := 0, spec := "good" }]

/-- Refuses bundles with a bad entry, and fails the call after each refused offer. -/
def refusing : Cluster where
  fails n call := match call with
    | .apply obj => if obj.entries.any (·.body = "bad") then some { kind := .invalid }
        else if n = 4 then some { kind := .other } else none
    | .get | .delete => none

/-- The bundle is refused, the first rule kept, the second refused on its own and the restore after
it fails, the third accepted. -/
theorem deployed_of_status_refused : ∃ obj, (reconcileLocked plain refusing threeRules
        { live := some ⟨managedByValue, ["1"], [⟨"1", "good"⟩]⟩ }).live = some obj ∧
      (reconcileLocked plain refusing threeRules
        { live := some ⟨managedByValue, ["1"], [⟨"1", "good"⟩]⟩ }).calls = 6 ∧
      obj.entries.map Entry.id = ["1", "3"] ∧
      ∃ e, plain.entryOf ⟨"3", "Three", 0, 0, "good"⟩ = some e ∧
        obj.entries.filter (·.id = "3") = [e] := by
  have quiet : refusing.Quiet := fun _ _ => rfl
  obtain ⟨one, -⟩ := @deployed_of_status plain refusing quiet threeRules (by decide)
    { live := some ⟨managedByValue, ["1"], [⟨"1", "good"⟩]⟩ } rfl
  obtain ⟨obj, e, live, entry, only⟩ :=
    one ⟨"3", "Three", 0, 0, "good"⟩ (by decide) (by decide +kernel)
  refine ⟨obj, live, by decide +kernel, ?_, e, entry, only⟩
  have stored : (reconcileLocked plain refusing threeRules
      { live := some ⟨managedByValue, ["1"], [⟨"1", "good"⟩]⟩ }).live =
      some ⟨managedByValue, ["1", "3"], [⟨"1", "good"⟩, ⟨"3", "good"⟩]⟩ := by decide +kernel
  cases live.symm.trans stored
  rfl

end Kconmon.Console.PromRules
