import Kconmon.Console.PromRules

/-!
# Objects of others

The bundle's name may be taken by a PrometheusRule that is not the console's. The first read of a
pass finds that out, and every write of the pass relies on it. A read that fails for another
reason than absence does not stop the write, so over such a read a pass applies its bundle to
whatever is stored.
-/
namespace Kconmon.Console.PromRules
open Lib

/-- An object without the console's label. -/
def foreign (stored : Option Object) : Bool := stored.any fun obj => !obj.ownedByConsole

/-- Other writers leave the label of the object alone. -/
def Cluster.KeepsLabel (cl : Cluster) : Prop :=
  ∀ n obj obj', cl.others n obj = some obj' → obj'.ownedByConsole = obj.ownedByConsole

/-- Nothing foreign is stored, and nothing foreign was when a write was issued. -/
structure Calm (w : World) : Prop where
  live : foreign w.live = false
  writes : ∀ stored ∈ w.writes, foreign stored = false

namespace Calm

variable {R : Renderer} {cl : Cluster} {w : World}

theorem congr (calm : Calm w) {w' : World} (live : w'.live = w.live)
    (writes : w'.writes = w.writes) : Calm w' := ⟨live ▸ calm.live, writes ▸ calm.writes⟩

theorem markAll (calm : Calm w) (rules : List AlertRule) (s : Status) : Calm (w.markAll rules s) :=
    by
  unfold World.markAll
  induction rules generalizing w with
  | nil => exact calm
  | cons r rules ih => exact ih (calm.congr rfl rfl)

section
variable (keeps : cl.KeepsLabel)
include keeps

theorem foreign_others {n : Nat} {stored : Option Object}
    (own : foreign stored = false) : foreign (stored.bind (cl.others n)) = false := by
  cases stored with
  | none => rfl
  | some obj =>
    cases other : cl.others n obj with
    | none => simp [other, foreign]
    | some obj' =>
      have label := keeps n obj obj' other
      simpa [other, foreign, label] using own

section
variable (calm : Calm w)
include calm

theorem tick : Calm (w.tick cl) := ⟨foreign_others keeps calm.live, calm.writes⟩

theorem issue : Calm (w.issue cl) := by
  have own := foreign_others (n := w.calls) keeps calm.live
  refine ⟨own, fun stored written => ?_⟩
  rcases List.mem_cons.mp written with rfl | old
  · exact own
  · exact calm.writes stored old

theorem apply {obj : Object} (own : obj.ownedByConsole = true) : Calm (w.apply cl obj).1 := by
  unfold World.apply
  split
  · exact calm.issue keeps
  · exact ⟨by simp [foreign, own], (calm.issue keeps).writes⟩

theorem deleteExact : Calm (w.deleteExact cl).1 := by
  unfold World.deleteExact
  split
  · exact calm.issue keeps
  · exact ⟨rfl, (calm.issue keeps).writes⟩

theorem deleteIfOwned (got : Except ApiError Object) : Calm (deleteIfOwned cl w got).1 := by
  unfold PromRules.deleteIfOwned
  split
  · exact calm
  · split
    · exact calm.deleteExact keeps
    · exact calm

end

end

end Calm

theorem owned_of_renderBundle {R : Renderer} {rules : List AlertRule} {obj : Object}
    (rendered : R.renderBundle rules = .ok obj) : obj.ownedByConsole = true := by
  simp [Object.ownedByConsole, (Renderer.renderBundle_eq rendered).1]

namespace Calm

variable {R : Renderer} {cl : Cluster} {w : World}

theorem restore (keeps : cl.KeepsLabel) (calm : Calm w) (accepted : List AlertRule) :
    Calm (restore R cl w accepted) := by
  unfold PromRules.restore
  split
  · exact calm
  · split
    · exact calm
    · rename_i rendered
      exact calm.apply keeps (owned_of_renderBundle rendered)

theorem offer (keeps : cl.KeepsLabel) {s : Probing} (calm : Calm s.world) (rules : List AlertRule)
    (id : String) : Calm (Probing.offer R cl rules s id).world := by
  unfold Probing.offer
  split
  · exact calm
  · split
    · exact calm
    · dsimp only
      split
      · exact calm
      · rename_i obj rendered
        have applied := calm.apply keeps (owned_of_renderBundle rendered)
        split
        · rename_i w answer
          rwa [answer] at applied
        · rename_i w err answer
          rw [answer] at applied
          exact applied.restore keeps _

theorem offers (keeps : cl.KeepsLabel) {s : Probing} (calm : Calm s.world) (rules : List AlertRule)
    (ids : List String) : Calm (ids.foldl (Probing.offer R cl rules) s).world := by
  induction ids generalizing s with
  | nil => exact calm
  | cons id ids ih => exact ih (calm.offer keeps rules id)

theorem adopt (calm : Calm w) (accepted : List AlertRule) (desired : GoMap String String) :
    Calm (adopt w accepted desired) := by
  unfold PromRules.adopt
  split
  · exact calm
  · exact calm.congr rfl rfl

section
variable (keeps : cl.KeepsLabel)
include keeps

theorem deleteOwnedBundle (calm : Calm w) :
    Calm (deleteOwnedBundle cl w).1 := (calm.tick keeps).deleteIfOwned keeps _

theorem probe (calm : Calm w) (rules keep : List AlertRule)
    (quarantined : List String) (desired : GoMap String String) :
    Calm (probe R cl w rules keep quarantined desired) := by
  have offered :=
    calm.offers (R := R) (s := { world := w, accepted := keep }) keeps rules quarantined
  unfold PromRules.probe
  generalize quarantined.foldl (Probing.offer R cl rules) { world := w, accepted := keep } =
    s at offered ⊢
  have adopted := (offered.markAll s.accepted .synced).adopt s.accepted desired
  dsimp only
  split
  · have deleted := adopted.deleteOwnedBundle keeps
    split
    · exact deleted.congr rfl rfl
    · exact deleted
  · exact adopted

theorem retryWithLastApplied (calm : Calm w) {rules : List AlertRule}
    {lastApplied desired : GoMap String String} {cause : ApiError} {w' : World}
    (retried : retryWithLastApplied R cl w rules lastApplied desired cause = some w') : Calm w' :=
      by
  unfold PromRules.retryWithLastApplied at retried
  dsimp only at retried
  generalize rules.filter (unchanged lastApplied desired) = keep at retried
  split at retried
  · cases retried
  · have marked := calm.markAll (rules.filter fun r => !unchanged lastApplied desired r)
      (.error (.refused cause))
    split at retried
    · cases retried
      exact marked.probe keeps _ _ _ _
    · split at retried
      · cases retried
        exact marked
      · rename_i obj rendered
        have applied := marked.apply keeps (owned_of_renderBundle rendered)
        split at retried
        · rename_i answer
          rw [answer] at applied
          cases retried
          exact applied.markAll _ _
        · rename_i answer
          rw [answer] at applied
          cases retried
          exact applied.probe keeps _ _ _ _

theorem applyAll (calm : Calm w) (got : Except ApiError Object)
    (rules : List AlertRule) {desired : Object} (own : desired.ownedByConsole = true) :
    Calm (applyAll R cl w got rules desired) := by
  have applied := calm.apply keeps own
  unfold PromRules.applyAll
  dsimp only
  split
  · rename_i answer
    rw [answer] at applied
    exact (applied.markAll _ _).congr rfl rfl
  · rename_i w' err answer
    rw [answer] at applied
    have failed := applied.markAll rules (.error (.cause (classify err) err))
    split
    · split
      · rename_i baseline _ _
        cases retried : PromRules.retryWithLastApplied R cl w' rules baseline
            (R.ruleFingerprints desired.entries) err with
        | none => simpa [retried] using failed
        | some w'' => simpa [retried] using applied.retryWithLastApplied keeps retried
      · exact failed
    · exact failed

end

theorem prepare (calm : Calm w) (rows : List AlertRule) (got : Except ApiError Object) :
    Calm (prepare R rows w got).1 := by
  have marked := (prepare_spec R rows w got).2
  exact calm.congr marked.live marked.writes

theorem deploy (keeps : cl.KeepsLabel) (calm : Calm w) (got : Except ApiError Object)
    (rules : List AlertRule) : Calm (deploy R cl w got rules) := by
  unfold PromRules.deploy
  split
  · exact calm.deleteIfOwned keeps got
  · split
    · exact calm.markAll _ _
    · rename_i desired rendered
      have own := owned_of_renderBundle rendered
      split
      · split
        · exact calm.applyAll keeps _ _ own
        · exact calm.markAll _ _
      · exact calm.applyAll keeps _ _ own

end Calm

/-- A pass that reads an object of others issues no write. -/
theorem writes_of_foreign {R : Renderer} {cl : Cluster} {w : World} {got : Object}
    (foreign : got.ownedByConsole = false) (rules : List AlertRule) :
    (deploy R cl w (.ok got) rules).writes = w.writes := by
  unfold deploy
  split
  · simp [deleteIfOwned, foreign]
  · split
    · exact (World.Marked.markAll w rules _).writes
    · simp only [foreign, Bool.false_eq_true, if_false]
      exact (World.Marked.markAll w rules _).writes

/-! ## Whole runs -/

/-- A pass, over no rules when they cannot be listed, or a new process. -/
inductive Turn where
  | pass (rows : Option (List AlertRule))
  | restart
  deriving DecidableEq

def turn (R : Renderer) (cl : Cluster) (w : World) : Turn → Option World
  | .pass rows => some (reconcile R cl w rows)
  | .restart => some { w with lastApplied := none }

/-- The first read of a pass succeeds when it is an object of others that is stored. -/
def readsForeign (cl : Cluster) (w : World) : Turn → Bool
  | .pass (some _) => !foreign (w.tick cl).live || (cl.fails w.calls .get).isNone
  | .pass none | .restart => true

theorem writes_reconcileLocked {R : Renderer} {cl : Cluster} (keeps : cl.KeepsLabel) {w : World}
    {rows : List AlertRule} (read : readsForeign cl w (.pass (some rows)) = true)
    (writes : ∀ stored ∈ w.writes, foreign stored = false) :
    ∀ stored ∈ (reconcileLocked R cl rows w).writes, foreign stored = false := by
  cases others : foreign (w.tick cl).live with
  | false =>
    have calm : Calm (w.tick cl) := ⟨others, writes⟩
    exact ((calm.prepare rows _).deploy keeps _ _).writes
  | true =>
    obtain ⟨obj, stored, label⟩ : ∃ obj, (w.tick cl).live = some obj ∧
        obj.ownedByConsole = false := by simpa [foreign, Option.any_eq_true] using others
    have success : cl.fails w.calls .get = none := by simpa [readsForeign, others] using read
    have got : (w.get cl).2 = .ok obj := by simp [World.get, success, stored]
    have marked := (prepare_spec R rows (w.tick cl) (.ok obj)).2
    unfold reconcileLocked
    dsimp only
    rw [got, writes_of_foreign label]
    exact marked.writes ▸ writes

/-- **The console leaves objects of others alone** while no first read of a pass fails over one. -/
theorem untouched_of_readsForeign {R : Renderer} {cl : Cluster} (keeps : cl.KeepsLabel)
    {w₀ w : World} (fresh : w₀.writes = [])
    (run : Reaches (turn R cl) (fun w a => readsForeign cl w a = true) w₀ w) :
    ∀ stored ∈ w.writes, foreign stored = false := by
  refine run.invariant (I := fun w => ∀ stored ∈ w.writes, foreign stored = false)
    (by simp [fresh]) ?_
  intro w a w' writes read taken
  cases a with
  | pass rows =>
    cases rows with
    | none =>
      cases taken
      exact writes
    | some rows =>
      cases taken
      exact writes_reconcileLocked keeps read writes
  | restart =>
    cases taken
    exact writes

def chartRules : Object := { managedBy := "Helm", ruleIDs := [], entries := [⟨"", "up == 0"⟩] }

def pairLoss : AlertRule :=
  { id := "1", name := "PairLoss", updatedAt := 0, createdAt := 0, spec := "loss > 1" }

/-- The first read fails. -/
def flaky : Cluster where
  fails n call := if n = 0 ∧ call = .get then some { kind := .other } else none

theorem untouched_of_readsForeign_chart : ∃ w, Reaches (turn plain { fails := fun _ _ => none })
        (fun w a => readsForeign { fails := fun _ _ => none } w a = true)
        { live := some chartRules } w ∧
      w.live = some chartRules ∧ w.statusOf "1" = some (.error (.foreign "Helm")) ∧
      ∀ stored ∈ w.writes, foreign stored = false := by
  let quiet : Cluster := { fails := fun _ _ => none }
  have keeps : quiet.KeepsLabel := fun n obj obj' same => by
    cases same
    rfl
  let w := (exec (guarded (turn plain quiet) fun w a => readsForeign quiet w a = true)
    { live := some chartRules } [.pass (some [pairLoss]), .restart, .pass (some [])]).get
    (by decide)
  have run : Reaches (turn plain quiet) (fun w a => readsForeign quiet w a = true)
      { live := some chartRules } w := Reaches.of_exec (Option.some_get _).symm
  exact ⟨w, run, by decide, by decide, untouched_of_readsForeign keeps rfl run⟩

/-- Over a read that fails, the pass applies its bundle to the object it does not own. -/
theorem foreign_overwritten : flaky.KeepsLabel ∧ foreign (some chartRules) = true ∧
      (reconcile plain flaky { live := some chartRules } (some [pairLoss])).writes =
        [some chartRules] ∧
      (reconcile plain flaky { live := some chartRules } (some [pairLoss])).live =
        some { managedBy := managedByValue, ruleIDs := ["1"], entries := [⟨"1", "loss > 1"⟩] } := by
  refine ⟨fun n obj obj' same => ?_, by decide, by decide, by decide⟩
  cases same
  rfl

end Kconmon.Console.PromRules
