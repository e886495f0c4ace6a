import Mathlib.Data.Finset.Max
import Mathlib.Data.Prod.Lex
import Mathlib.Data.String.Basic
import Kconmon.Console.PromRules

/-!
# Two rules under one alert name

Rule names that differ may be folded into one alert name by `SanitizeAlertName`, and a bundle
holds one rule per alert name. `dropAlertNameCollisions` walks the rules in the order `precedes`:
the first rule under a name holds it and every later one is refused. Since ids are distinct that
order is a linear one, so the rules that stay are the least ones of their names, whatever the
order of the list was.
-/
namespace Kconmon.Console.PromRules
open Lib

/-! ## Alert names -/

inductive SanitizeError where
  | empty (name : String)
  | noLetter (name out : String)
  deriving DecidableEq

/-- One pass of the loop; the state is what was written and `upperNext`. -/
def sanitizeRune (acc : List Char × Bool) (r : Char) : List Char × Bool :=
  if 'a' ≤ r ∧ r ≤ 'z' then
    (acc.1 ++ [if acc.2 then Char.ofNat (r.toNat - 32) else r], false)
  else if ('A' ≤ r ∧ r ≤ 'Z') ∨ ('0' ≤ r ∧ r ≤ '9') ∨ r = '_' then (acc.1 ++ [r], false)
  else (acc.1, true)

/-- `SanitizeAlertName` -/
def sanitizeAlertName (name : String) : Except SanitizeError String :=
  let out := (name.toList.foldl sanitizeRune ([], true)).1
  match out with
  | [] => .error (.empty name)
  | c :: _ =>
    if (c < 'a' ∨ 'z' < c) ∧ (c < 'A' ∨ 'Z' < c) then .error (.noLetter name (String.ofList out))
    else .ok (String.ofList out)

/-- A rule that renders does so under its sanitized name. -/
def Renderable (R : Renderer) (r : AlertRule) : Prop :=
  ∃ e alert, R.ruleEntry r = .ok (e, alert) ∧ sanitizeAlertName r.name = .ok alert

theorem Renderable.alert {R : Renderer} {r : AlertRule} (renders : Renderable R r) :
    sanitizeAlertName r.name = .ok (R.alertOf r) := by
  obtain ⟨e, alert, entry, sanitized⟩ := renders
  rw [sanitized, Renderer.alertOf, entry]

/-! ## The order of the rules -/

section Order

variable {lastApplied : Option (GoMap String String)} {a b c : AlertRule}

/-- Whether the last accepted bundle holds the rule. -/
def deployed (lastApplied : Option (GoMap String String)) (r : AlertRule) : Bool :=
  ((lastApplied.getD ∅).lookup r.id).isSome

/-- What the rules are ordered by: whether they are deployed, then the age, then the id. -/
def rank (lastApplied : Option (GoMap String String)) (r : AlertRule) :
    Nat ×ₗ Nat ×ₗ Nat ×ₗ String :=
  toLex (if deployed lastApplied r then 0 else 1, toLex (r.updatedAt, toLex (r.createdAt, r.id)))

theorem precedes_iff : precedes lastApplied a b ↔ rank lastApplied a ≤ rank lastApplied b := by
  unfold precedes rank deployed
  simp only [Prod.Lex.toLex_le_toLex]
  cases ((lastApplied.getD ∅).lookup a.id).isSome <;>
    cases ((lastApplied.getD ∅).lookup b.id).isSome <;>
    grind

theorem id_eq_of_precedes (first : precedes lastApplied a b) (second : precedes lastApplied b a) :
    a.id = b.id := by
  rw [precedes_iff] at first second
  have same := congrArg (fun rank => (ofLex (ofLex (ofLex rank).2).2).2) (le_antisymm first second)
  exact same

/-- A deployed rule first, then the least recently updated, then created, then the smallest id. -/
theorem of_precedes (order : precedes lastApplied a b) :
    (deployed lastApplied b = true → deployed lastApplied a = true) ∧
    (deployed lastApplied a = deployed lastApplied b →
      a.updatedAt < b.updatedAt ∨ a.updatedAt = b.updatedAt ∧
        (a.createdAt < b.createdAt ∨ a.createdAt = b.createdAt ∧ a.id ≤ b.id)) := by
  rw [precedes_iff] at order
  unfold rank at order
  simp only [Prod.Lex.toLex_le_toLex] at order
  grind

instance : Std.Total (precedes lastApplied) where
  total a b := by simp only [precedes_iff, le_total]

instance : IsTrans AlertRule (precedes lastApplied) where
  trans a b c := by
    simp only [precedes_iff]
    exact le_trans

end Order

/-! ## The walk -/

section Walk

variable {R : Renderer} {w : World}

/-- Another rule of the list comes first under the same alert name. -/
def Beaten (R : Renderer) (w : World) (rules : List AlertRule) (r : AlertRule) : Prop :=
  ∃ first ∈ rules, first ≠ r ∧ R.alertOf first = R.alertOf r ∧ precedes w.lastApplied first r

/-- What the walk has found out about the rules visited so far. -/
structure Visited (R : Renderer) (w : World) (done : List AlertRule) (s : Clashes) : Prop where
  holder : ∀ alert, (s.holder.lookup alert).isSome ↔ ∃ r ∈ done, R.alertOf r = alert
  refused : ∀ id, id ∈ s.refused ↔ ∃ r ∈ done, r.id = id ∧ Beaten R w done r
  marked : ∃ marks, s.world.statuses = marks ++ w.statuses ∧ marks.map Prod.fst = s.refused ∧
    ∀ mark ∈ marks, ∃ reason, mark.2 = .error reason

theorem Visited.visit {done : List AlertRule} {r : AlertRule} {s : Clashes}
    (visited : Visited R w done s)
    (after : ∀ d ∈ done, precedes w.lastApplied d r ∧ d.id ≠ r.id) :
    Visited R w (done ++ [r]) (s.visit R r) := by
  obtain ⟨holder, refused, marks, statuses, ids, errors⟩ := visited
  -- A rule visited earlier is beaten by the same rules as before.
  have earlier : ∀ d ∈ done, Beaten R w (done ++ [r]) d ↔ Beaten R w done d := by
    intro d listed
    constructor
    · rintro ⟨first, member, other, alert, order⟩
      rcases List.mem_append.mp member with old | new
      · exact ⟨first, old, other, alert, order⟩
      · obtain rfl := List.mem_singleton.mp new
        exact absurd (id_eq_of_precedes (after d listed).1 order) (after d listed).2
    · rintro ⟨first, member, beats⟩
      exact ⟨first, List.mem_append_left _ member, beats⟩
  have last : Beaten R w (done ++ [r]) r ↔ ∃ d ∈ done, R.alertOf d = R.alertOf r := by
    constructor
    · rintro ⟨first, member, other, alert, -⟩
      exact ⟨first, by simpa [other] using member, alert⟩
    · rintro ⟨d, listed, alert⟩
      refine ⟨d, by simp [listed], ?_, alert, (after d listed).1⟩
      rintro rfl
      exact (after d listed).2 rfl
  have taken := holder (R.alertOf r)
  unfold Clashes.visit
  split
  · rename_i prev held
    rw [held] at taken
    constructor
    case holder => grind
    case refused =>
      intro id
      simp only [List.mem_cons, List.mem_append, List.not_mem_nil, or_false, refused]
      grind
    case marked =>
      refine ⟨(r.id, _) :: marks, by rw [World.setStatus, statuses]; rfl, by simp [ids], ?_⟩
      simpa using errors
  · rename_i free
    rw [free] at taken
    constructor
    case holder =>
      intro alert
      by_cases own : alert = R.alertOf r
      · simp [own]
      · rw [List.lookup_cons, beq_eq_false_iff_ne.mpr own]
        grind
    case refused =>
      intro id
      simp only [List.mem_append, List.mem_singleton, refused]
      grind
    case marked => exact ⟨marks, statuses, ids, errors⟩

theorem visited_foldl {order : List AlertRule}
    (sorted : order.Pairwise (precedes w.lastApplied)) (ids : (order.map AlertRule.id).Nodup) :
    Visited R w order (order.foldl (Clashes.visit R) { world := w }) := by
  induction order using List.reverseRecOn with
  | nil => exact ⟨by simp, by simp, [], by simp⟩
  | append_singleton done r ih =>
    rw [List.pairwise_append] at sorted
    rw [List.map_append, List.nodup_append] at ids
    rw [List.foldl_append]
    refine (ih sorted.1 ids.1).visit fun d listed => ⟨sorted.2.2 d listed r (by simp), ?_⟩
    exact ids.2.2 d.id (List.mem_map_of_mem listed) r.id (by simp)

variable {rows : List AlertRule}

section
variable (distinct : (rows.map AlertRule.id).Nodup)
include distinct

theorem eq_of_id {a b : AlertRule} (ha : a ∈ rows)
    (hb : b ∈ rows) (same : a.id = b.id) : a = b := List.inj_on_of_nodup_map distinct ha hb same

theorem visited_rows : Visited R w rows
      ((rows.insertionSort (precedes w.lastApplied)).foldl (Clashes.visit R) { world := w }) := by
  have perm := List.perm_insertionSort (precedes w.lastApplied) rows
  obtain ⟨holder, refused, marked⟩ := @visited_foldl R w _
    (List.pairwise_insertionSort _ rows) ((perm.map _).nodup_iff.mpr distinct)
  constructor
  · simpa [perm.mem_iff] using holder
  · simpa [Beaten, perm.mem_iff] using refused
  · exact marked

/-- The rules that stay are the first ones under their alert names. -/
theorem mem_kept_iff (r : AlertRule) : r ∈ (dropAlertNameCollisions R w rows).2 ↔ r ∈ rows ∧
      ∀ q ∈ rows, R.alertOf q = R.alertOf r → precedes w.lastApplied r q := by
  have refused := (@visited_rows R w _ distinct).refused
  simp only [dropAlertNameCollisions, List.mem_filter, decide_eq_true_eq, refused]
  refine and_congr_right fun listed => ?_
  constructor
  · intro stays q member alert
    by_cases other : q = r
    · rw [other]
      exact refl_of (precedes w.lastApplied) r
    · refine (total_of (precedes w.lastApplied) r q).resolve_right fun before => stays ?_
      exact ⟨r, listed, rfl, q, member, other, alert, before⟩
  · rintro first ⟨q, member, same, p, listed', other, alert, before⟩
    obtain rfl := eq_of_id distinct member listed same
    exact other (eq_of_id distinct listed' listed
      (id_eq_of_precedes before (first p listed' alert)))

end

theorem exists_first {r : AlertRule} (listed : r ∈ rows) : ∃ k ∈ rows, R.alertOf k = R.alertOf r ∧
      ∀ q ∈ rows, R.alertOf q = R.alertOf r → precedes w.lastApplied k q := by
  let same := (rows.filter fun q => R.alertOf q = R.alertOf r).toFinset
  obtain ⟨k, member, least⟩ :=
    same.exists_min_image (rank w.lastApplied) ⟨r, by simp [same, listed]⟩
  simp only [same, List.mem_toFinset, List.mem_filter, decide_eq_true_eq] at member least
  exact ⟨k, member.1, member.2, fun q here alert => precedes_iff.mpr (least q ⟨here, alert⟩)⟩

theorem marks_dropped (distinct : (rows.map AlertRule.id).Nodup) :
    ∃ marks, (dropAlertNameCollisions R w rows).1.statuses = marks ++ w.statuses ∧
      (∀ mark ∈ marks, ∃ reason, mark.2 = .error reason) ∧
      (∀ mark ∈ marks, ∃ r ∈ rows, r.id = mark.1) ∧
      ∀ r ∈ rows, r.id ∈ marks.map Prod.fst ↔ r ∉ (dropAlertNameCollisions R w rows).2 := by
  obtain ⟨-, refused, marks, statuses, ids, errors⟩ := @visited_rows R w _ distinct
  refine ⟨marks, statuses, errors, fun mark listed => ?_, fun r listed => ?_⟩
  · have member : mark.1 ∈ marks.map Prod.fst := List.mem_map_of_mem listed
    rw [ids, refused] at member
    obtain ⟨r, here, same, -⟩ := member
    exact ⟨r, here, same⟩
  · simp [dropAlertNameCollisions, ids, listed]

/-- Name collisions cost exactly the newcomers. -/
theorem collisions_cost_newcomers (R : Renderer) (w : World) (rows : List AlertRule)
    (renders : ∀ r ∈ rows, Renderable R r) (distinct : (rows.map AlertRule.id).Nodup) :
    let kept := (dropAlertNameCollisions R w rows).2
    kept.Sublist rows ∧
    (∀ r ∈ rows, ∃! k, k ∈ kept ∧ sanitizeAlertName k.name = sanitizeAlertName r.name) ∧
    (∀ k ∈ kept, ∀ r ∈ rows, sanitizeAlertName k.name = sanitizeAlertName r.name →
      (deployed w.lastApplied r = true → deployed w.lastApplied k = true) ∧
      (deployed w.lastApplied k = deployed w.lastApplied r →
        k.updatedAt < r.updatedAt ∨ k.updatedAt = r.updatedAt ∧
          (k.createdAt < r.createdAt ∨ k.createdAt = r.createdAt ∧ k.id ≤ r.id))) ∧
    (∃ marks, (dropAlertNameCollisions R w rows).1.statuses = marks ++ w.statuses ∧
      (∀ mark ∈ marks, ∃ reason, mark.2 = .error reason) ∧
      (∀ mark ∈ marks, ∃ r ∈ rows, r.id = mark.1) ∧
      ∀ r ∈ rows, r.id ∈ marks.map Prod.fst ↔ r ∉ kept) ∧
    ∀ others, others.Perm rows → ∀ r, r ∈ (dropAlertNameCollisions R w others).2 ↔ r ∈ kept := by
  have alerts {a b : AlertRule} (ha : a ∈ rows) (hb : b ∈ rows) :
      sanitizeAlertName a.name = sanitizeAlertName b.name ↔ R.alertOf a = R.alertOf b := by
    rw [(renders a ha).alert, (renders b hb).alert, Except.ok.injEq]
  have kept_iff := @mem_kept_iff R w _ distinct
  intro kept
  refine ⟨List.filter_sublist, ?_, ?_, ?_, ?_⟩
  · intro r listed
    obtain ⟨k, here, alert, first⟩ := @exists_first R w _ _ listed
    refine ⟨k, ⟨(kept_iff k).mpr ⟨here, by rwa [alert]⟩, (alerts here listed).mpr alert⟩, ?_⟩
    rintro other ⟨stays, name⟩
    obtain ⟨here', first'⟩ := (kept_iff other).mp stays
    have alert' := (alerts here' listed).mp name
    exact eq_of_id distinct here' here
      (id_eq_of_precedes (first' k here (alert.trans alert'.symm)) (first other here' alert'))
  · intro k stays r listed name
    obtain ⟨here, first⟩ := (kept_iff k).mp stays
    exact of_precedes (first r listed ((alerts here listed).mp name).symm)
  · exact marks_dropped distinct
  · intro others perm r
    rw [mem_kept_iff ((perm.map _).nodup_iff.mpr distinct), kept_iff]
    simp only [perm.mem_iff]

end Walk

/-- Rules that render under their sanitized names. -/
def sanitizing : Renderer where
  ruleEntry r :=
    match plain.ruleEntry r, sanitizeAlertName r.name with
    | .ok (e, _), .ok alert => .ok (e, alert)
    | .error err, _ => .error err
    | _, .error _ => .error "no alert name"
  sha256 := plain.sha256
  labelled {r e alert} rendered := by
    split at rendered
    · rename_i plainly sanitized
      cases rendered
      exact plain.labelled plainly
    · cases rendered
    · cases rendered
  collisionFree := plain.collisionFree

/-- The older of two rules keeps the name they share. -/
theorem collisions_cost_newcomers_pair :
    let old : AlertRule := ⟨"b", "PairLoss", 1, 1, ""⟩
    let new : AlertRule := ⟨"a", "pair-loss", 2, 2, ""⟩
    let kept := (dropAlertNameCollisions sanitizing { live := none } [new, old]).2
    kept.Sublist [new, old] ∧ old ∈ kept ∧ new ∉ kept := by
  intro old new kept
  obtain ⟨part, one, oldest, -⟩ := collisions_cost_newcomers sanitizing { live := none } [new, old]
    (by
      simp only [List.forall_mem_cons]
      exact ⟨⟨⟨"a", ""⟩, "PairLoss", by decide, by decide⟩,
        ⟨⟨"b", ""⟩, "PairLoss", by decide, by decide⟩, by simp⟩)
    (by decide)
  have out : new ∉ kept := fun mem =>
    absurd ((oldest new mem old (by simp) (by decide)).2 rfl) (by decide)
  obtain ⟨k, ⟨mem, -⟩, -⟩ := one old (by simp)
  rcases List.mem_pair.mp (part.subset mem) with rfl | rfl
  · exact absurd mem out
  · exact ⟨part, mem, out⟩

end Kconmon.Console.PromRules
