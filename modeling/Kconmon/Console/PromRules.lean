import Kconmon.Lib.GoMap
import Kconmon.Lib.Runs
import Mathlib.Data.List.Sort

/-!
# Deploying alert rules as one PrometheusRule

A reconcile pass renders the enabled rules into one object, the bundle, and applies it. When the
cluster refuses the bundle's content, the rules that changed since the last accepted bundle are
set aside, the rest is applied, and the ones set aside are offered again one at a time.

The cluster answers every call as it likes: `Cluster.fails` says which calls fail and how, and
`Cluster.others` what other writers did to the object before each call. `World.statuses` records
every status a pass sets, newest first, and `World.writes` what was stored under the bundle's name
when each write was issued.
-/
namespace Kconmon.Console.PromRules
open Lib

/-- An enabled row. `spec` is what the renderer reads besides the name. -/
structure AlertRule where
  id : String
  name : String
  updatedAt : Nat
  createdAt : Nat
  spec : String
  deriving DecidableEq

/-- A rendered rule and the rule id it is labelled with, empty when it has no such label. -/
structure Entry where
  id : String
  body : String
  deriving DecidableEq

/-- What the pass uses of rendering: the entry and alert name of a rule, and the hash of an entry.
An entry is labelled with its rule's id, and entries are told apart by their hash. -/
structure Renderer where
  ruleEntry : AlertRule → Except String (Entry × String)
  sha256 : Entry → String
  labelled : ∀ {r e alert}, ruleEntry r = .ok (e, alert) → e.id = r.id ∧ r.id ≠ ""
  collisionFree : Function.Injective sha256

def managedByValue : String := "kconmon-ng-console"

/-- The managed-by label, the annotation that lists the rule ids, and the rules. -/
structure Object where
  managedBy : String
  ruleIDs : List String
  entries : List Entry
  deriving DecidableEq

def Object.ownedByConsole (obj : Object) : Bool := obj.managedBy = managedByValue

/-! ## The cluster's answers -/

inductive Kind where
  | notFound
  | noMatch
  | forbidden
  | unauthorized
  | invalid
  | badRequest
  | other
  deriving DecidableEq

/-- `denied` says whether the text contains "denied the request". -/
structure ApiError where
  kind : Kind
  denied : Bool := false
  deriving DecidableEq

inductive Cause where
  | crdMissing
  | forbidden
  | other
  deriving DecidableEq

def classify (err : ApiError) : Cause :=
  match err.kind with
  | .forbidden | .unauthorized => .forbidden
  | .notFound | .noMatch => .crdMissing
  | .invalid | .badRequest | .other => .other

def isContentRejection (err : ApiError) : Bool :=
  err.kind = .invalid || err.kind = .badRequest || err.denied

inductive Call where
  | get
  | apply (obj : Object)
  | delete
  deriving DecidableEq

/-- What goes wrong with the n-th call, and what others made of the object before it. -/
structure Cluster where
  fails : Nat → Call → Option ApiError
  others : Nat → Object → Option Object := fun _ => some

/-- Why a rule is in error. -/
inductive Reason where
  | render (err : String)
  | collision (holder name alert : String)
  | renderBundle (err : String)
  | foreign (managedBy : String)
  | cause (cause : Cause) (err : ApiError)
  | refused (err : ApiError)
  deriving DecidableEq

inductive Status where
  | synced
  | drift
  | error (reason : Reason)
  deriving DecidableEq

structure World where
  live : Option Object
  /-- The fingerprint of each rule in the last accepted bundle. -/
  lastApplied : Option (GoMap String String) := none
  statuses : List (String × Status) := []
  calls : Nat := 0
  writes : List (Option Object) := []
  deriving DecidableEq

namespace World

def setStatus (w : World) (id : String) (s : Status) : World :=
  { w with statuses := (id, s) :: w.statuses }

def markAll (w : World) (rules : List AlertRule) (s : Status) : World :=
  rules.foldl (fun w r => w.setStatus r.id s) w

/-- A call reaches the cluster, after whatever others did. -/
def tick (cl : Cluster) (w : World) : World :=
  { w with live := w.live.bind (cl.others w.calls), calls := w.calls + 1 }

def issue (cl : Cluster) (w : World) : World :=
  let w := w.tick cl
  { w with writes := w.live :: w.writes }

def get (cl : Cluster) (w : World) : World × Except ApiError Object :=
  let answer := match cl.fails w.calls .get, (w.tick cl).live with
    | some err, _ => .error err
    | none, none => .error { kind := .notFound }
    | none, some obj => .ok obj
  (w.tick cl, answer)

def apply (cl : Cluster) (w : World) (obj : Object) : World × Option ApiError :=
  match cl.fails w.calls (.apply obj) with
  | some err => (w.issue cl, some err)
  | none => ({ w.issue cl with live := some obj }, none)

/-- Whether the object is gone. -/
def deleteExact (cl : Cluster) (w : World) : World × Bool :=
  match cl.fails w.calls .delete with
  | some err => (w.issue cl, err.kind = .notFound)
  | none => ({ w.issue cl with live := none }, true)

end World

/-! ## Rendering -/

namespace Renderer

def quote (s : String) : String := "\"" ++ s ++ "\""

/-- Entries in the order of the rules; two rules with one alert name are refused. -/
def collect (R : Renderer) (seen : List (String × String)) :
    List AlertRule → Except String (List Entry)
  | [] => .ok []
  | r :: rules => do
    let (entry, alert) ← R.ruleEntry r
    match seen.lookup alert with
    | some prev => .error ("alert name collision: " ++ quote prev ++ " and " ++ quote r.name ++
        " both sanitize to " ++ quote alert)
    | none => return entry :: (← R.collect ((alert, r.name) :: seen) rules)

def bundleOrder (a b : AlertRule) : Prop :=
  a.name.toLower < b.name.toLower ∨ a.name.toLower = b.name.toLower ∧ a.id ≤ b.id

instance : DecidableRel bundleOrder := fun _ _ => inferInstanceAs (Decidable (_ ∨ _ ∧ _))

def renderBundle (R : Renderer) (rules : List AlertRule) : Except String Object := do
  let entries ← R.collect [] (rules.insertionSort bundleOrder)
  return { managedBy := managedByValue
           ruleIDs := (rules.map AlertRule.id).insertionSort (· ≤ ·)
           entries }

theorem renderBundle_eq {R : Renderer} {rules : List AlertRule} {obj : Object}
    (rendered : R.renderBundle rules = .ok obj) : obj.managedBy = managedByValue ∧
      R.collect [] (rules.insertionSort bundleOrder) = .ok obj.entries := by
  unfold renderBundle at rendered
  cases collected : R.collect [] (rules.insertionSort bundleOrder) with
  | error err => simp [collected, bind, Except.bind] at rendered
  | ok entries =>
    simp only [collected, bind, Except.bind, pure, Except.pure, Except.ok.injEq] at rendered
    subst rendered
    exact ⟨rfl, rfl⟩

/-- The alert name of a rule that renders. -/
def alertOf (R : Renderer) (r : AlertRule) : String :=
  match R.ruleEntry r with
  | .ok (_, alert) => alert
  | .error _ => ""

def ruleFingerprints (R : Renderer) (entries : List Entry) : GoMap String String :=
  entries.foldl (fun m e => if e.id = "" then m else m.insert e.id (R.sha256 e)) ∅

end Renderer

/-! ## A pass -/

section Pass

variable (R : Renderer) (cl : Cluster)

/-- The live bundle, if it is the console's own, is the last one the cluster accepted. -/
def baseline (got : Except ApiError Object) (lastApplied : Option (GoMap String String)) :
    Option (GoMap String String) :=
  match got with
  | .error _ => lastApplied
  | .ok obj =>
    let seeded := R.ruleFingerprints obj.entries
    if obj.ownedByConsole ∧ seeded.entries ≠ [] then some seeded else lastApplied

def seed (w : World) (got : Except ApiError Object) : World :=
  { w with lastApplied := baseline R got w.lastApplied }

/-- The rules that render on their own; the others are marked. -/
def renderable (w : World) : List AlertRule → World × List AlertRule
  | [] => (w, [])
  | row :: rows =>
    match R.renderBundle [row] with
    | .error err => renderable (w.setStatus row.id (.error (.render err))) rows
    | .ok _ =>
      let (w, rules) := renderable w rows
      (w, row :: rules)

/-- A deployed rule holds its alert name, else the least recently updated one. -/
def precedes (lastApplied : Option (GoMap String String)) (a b : AlertRule) : Prop :=
  let deployed (r : AlertRule) : Bool := ((lastApplied.getD ∅).lookup r.id).isSome
  if deployed a ≠ deployed b then deployed a = true
  else if a.updatedAt ≠ b.updatedAt then a.updatedAt < b.updatedAt
  else if a.createdAt ≠ b.createdAt then a.createdAt < b.createdAt
  else a.id ≤ b.id

instance (lastApplied : Option (GoMap String String)) : DecidableRel (precedes lastApplied) :=
  fun _ _ => by unfold precedes; infer_instance

structure Clashes where
  world : World
  /-- The rule that holds each alert name. -/
  holder : List (String × String) := []
  refused : List String := []

def Clashes.visit (s : Clashes) (r : AlertRule) : Clashes :=
  match s.holder.lookup (R.alertOf r) with
  | some prev =>
    { s with world := s.world.setStatus r.id (.error (.collision prev r.name (R.alertOf r)))
             refused := r.id :: s.refused }
  | none => { s with holder := (R.alertOf r, r.name) :: s.holder }

def dropAlertNameCollisions (w : World) (rows : List AlertRule) : World × List AlertRule :=
  let s := (rows.insertionSort (precedes w.lastApplied)).foldl (Clashes.visit R) { world := w }
  (s.world, rows.filter fun r => r.id ∉ s.refused)

/-- Whether the object is gone. -/
def deleteIfOwned (w : World) (got : Except ApiError Object) : World × Bool :=
  match got with
  | .error err => (w, err.kind = .notFound)
  | .ok obj => if obj.ownedByConsole then w.deleteExact cl else (w, false)

def deleteOwnedBundle (w : World) : World × Bool :=
  let (w, got) := w.get cl
  deleteIfOwned cl w got

def quarantineProbeLimit : Nat := 8

def ruleByID (rules : List AlertRule) (id : String) : Option AlertRule := rules.find? (·.id = id)

/-- Where the offers of a pass have got to. -/
structure Probing where
  world : World
  accepted : List AlertRule
  probes : Nat := 0
  inconclusive : Nat := 0

/-- Puts the last accepted bundle back after a refused offer. -/
def restore (w : World) (accepted : List AlertRule) : World :=
  if accepted = [] then w
  else match R.renderBundle accepted with
    | .error _ => w
    | .ok good => (w.apply cl good).1

/-- Offers one rule on top of what was accepted so far. -/
def Probing.offer (rules : List AlertRule) (s : Probing) (id : String) : Probing :=
  if quarantineProbeLimit ≤ s.probes then s
  else match ruleByID rules id with
    | none => s
    | some rule =>
      let s := { s with probes := s.probes + 1 }
      let candidate := s.accepted ++ [rule]
      match R.renderBundle candidate with
      | .error _ => s
      | .ok obj =>
        match s.world.apply cl obj with
        | (w, none) => { s with world := w, accepted := candidate }
        | (w, some err) =>
          { s with world := restore R cl w s.accepted
                   inconclusive := if isContentRejection err then s.inconclusive
                     else s.inconclusive + 1 }

/-- The rule is in the last accepted bundle, with the content it has now. -/
def unchanged (lastApplied desired : GoMap String String) (r : AlertRule) : Bool :=
  match lastApplied.lookup r.id with
  | none => false
  | some applied => (desired.lookup r.id).getD "" = applied

/-- The bundle a pass ends with is the baseline of the next. -/
def adopt (w : World) (accepted : List AlertRule) (desired : GoMap String String) : World :=
  if accepted = [] then w
  else
    let lastApplied := accepted.foldl
      (fun m r => m.insert r.id ((desired.lookup r.id).getD "")) (∅ : GoMap String String)
    { w with lastApplied := some lastApplied }

/-- The offers, once what did not change is applied. -/
def probe (w : World) (rules keep : List AlertRule) (quarantined : List String)
    (desired : GoMap String String) : World :=
  let s := quarantined.foldl (Probing.offer R cl rules) { world := w, accepted := keep }
  let w := adopt (s.world.markAll s.accepted .synced) s.accepted desired
  if s.accepted = [] ∧ s.probes = quarantined.length ∧ s.inconclusive = 0 ∧ quarantined ≠ [] then
    let (w, gone) := deleteOwnedBundle cl w
    if gone then { w with lastApplied := none } else w
  else w

/-- `none` when there is nothing new to blame. -/
def retryWithLastApplied (w : World) (rules : List AlertRule)
    (lastApplied desired : GoMap String String)
    (cause : ApiError) : Option World :=
  let keep := rules.filter (unchanged lastApplied desired)
  let suspects := rules.filter fun r => !unchanged lastApplied desired r
  let quarantined := suspects.map AlertRule.id
  if quarantined = [] then none
  else
    let w := w.markAll suspects (.error (.refused cause))
    if keep = [] then some (probe R cl w rules keep quarantined desired)
    else match R.renderBundle keep with
      | .error _ => some w
      | .ok obj =>
        match w.apply cl obj with
        | (w, some err) => some (w.markAll keep (.error (.cause (classify err) err)))
        | (w, none) => some (probe R cl w rules keep quarantined desired)

/-- Whether the live object was read and differs from the rendered one. -/
def compare (desired : Object) (got : Except ApiError Object) : Bool :=
  match got with
  | .ok obj => desired ≠ obj
  | .error _ => false

/-- Applies the bundle of all rules and writes the outcome onto every one of them. -/
def applyAll (w : World) (got : Except ApiError Object) (rules : List AlertRule)
    (desired : Object) : World :=
  match w.apply cl desired with
  | (w, none) =>
    { w.markAll rules (if compare desired got then .drift else .synced) with
      lastApplied := some (R.ruleFingerprints desired.entries) }
  | (w, some err) =>
    let retried := match w.lastApplied with
      | some lastApplied =>
        if classify err = Cause.other ∧ isContentRejection err then
          retryWithLastApplied R cl w rules lastApplied (R.ruleFingerprints desired.entries) err
        else none
      | none => none
    retried.getD (w.markAll rules (.error (.cause (classify err) err)))

/-- The rules the pass will deploy: those that render, one for each alert name. -/
def prepare (rows : List AlertRule) (w : World) (got : Except ApiError Object) :
    World × List AlertRule :=
  let (w, candidates) := renderable R (seed R w got) rows
  dropAlertNameCollisions R w candidates

def deploy (w : World) (got : Except ApiError Object) (rules : List AlertRule) : World :=
  if rules = [] then (deleteIfOwned cl w got).1
  else match R.renderBundle rules with
    | .error err => w.markAll rules (.error (.renderBundle err))
    | .ok desired =>
      match got with
      | .ok obj =>
        if obj.ownedByConsole then applyAll R cl w got rules desired
        else w.markAll rules (.error (.foreign obj.managedBy))
      | .error _ => applyAll R cl w got rules desired

def reconcileLocked (rows : List AlertRule) (w : World) : World :=
  let (w, got) := w.get cl
  let (w, rules) := prepare R rows w got
  deploy R cl w got rules

end Pass

/-- `none` when the rules cannot be listed. -/
def reconcile (R : Renderer) (cl : Cluster) (w : World) : Option (List AlertRule) → World
  | none => w
  | some rows => reconcileLocked R cl rows w

/-- The last status a rule was given. -/
def World.statusOf (w : World) (id : String) : Option Status := w.statuses.lookup id

/-! ## Steps that only mark rules -/

def Status.isError : Status → Bool
  | .error _ => true
  | .synced | .drift => false

/-- `w'` is `w` with some more rules marked in error. -/
structure World.Marked (w w' : World) : Prop where
  live : w'.live = w.live
  lastApplied : w'.lastApplied = w.lastApplied
  calls : w'.calls = w.calls
  writes : w'.writes = w.writes
  statuses : ∃ marks, w'.statuses = marks ++ w.statuses ∧ ∀ m ∈ marks, m.2.isError = true

namespace World.Marked

variable {R : Renderer} {w w' w'' : World}

theorem refl (w : World) : Marked w w := ⟨rfl, rfl, rfl, rfl, [], rfl, by simp⟩

theorem trans (first : Marked w w') (second : Marked w' w'') : Marked w w'' := by
  obtain ⟨marks, statuses, errors⟩ := first.statuses
  obtain ⟨marks', statuses', errors'⟩ := second.statuses
  refine ⟨second.live.trans first.live, second.lastApplied.trans first.lastApplied,
    second.calls.trans first.calls, second.writes.trans first.writes, marks' ++ marks, ?_, ?_⟩
  · rw [statuses', statuses, List.append_assoc]
  · intro m marked
    exact (List.mem_append.mp marked).elim (errors' m) (errors m)

theorem setStatus (w : World) (id : String) (reason : Reason) :
    Marked w (w.setStatus id (.error reason)) :=
  ⟨rfl, rfl, rfl, rfl, [(id, .error reason)], rfl, by simp [Status.isError]⟩

theorem markAll (w : World) (rules : List AlertRule) (reason : Reason) :
    Marked w (w.markAll rules (.error reason)) := by
  unfold World.markAll
  induction rules generalizing w with
  | nil => exact refl w
  | cons r rules ih => exact (setStatus w r.id reason).trans (ih _)

theorem renderable (R : Renderer) (w : World) (rows : List AlertRule) :
    Marked w (renderable R w rows).1 := by
  induction rows generalizing w with
  | nil => exact refl w
  | cons row rows ih =>
    unfold PromRules.renderable
    split
    · exact (setStatus w row.id _).trans (ih _)
    · exact ih w

theorem visit (s : Clashes) (r : AlertRule) : Marked s.world (s.visit R r).world := by
  unfold Clashes.visit
  split
  · exact setStatus _ _ _
  · exact refl _

theorem visits (s : Clashes) (rules : List AlertRule) :
    Marked s.world (rules.foldl (Clashes.visit R) s).world := by
  induction rules generalizing s with
  | nil => exact refl _
  | cons r rules ih => exact (visit s r).trans (ih _)

theorem dropAlertNameCollisions (R : Renderer) (w : World) (rows : List AlertRule) :
    Marked w (dropAlertNameCollisions R w rows).1 := visits { world := w } _

end World.Marked

theorem renderable_sublist (R : Renderer) (w : World) (rows : List AlertRule) :
    (renderable R w rows).2.Sublist rows := by
  induction rows generalizing w with
  | nil => exact .slnil
  | cons row rows ih =>
    unfold renderable
    split
    · exact (ih _).cons _
    · exact (ih w).cons_cons _

/-- Preparing marks rules and moves the baseline, and nothing else. -/
theorem prepare_spec (R : Renderer) (rows : List AlertRule) (w : World)
    (got : Except ApiError Object) :
    (prepare R rows w got).2.Sublist rows ∧ (seed R w got).Marked (prepare R rows w got).1 :=
  ⟨List.filter_sublist.trans (renderable_sublist R _ rows),
    (World.Marked.renderable R _ rows).trans (World.Marked.dropAlertNameCollisions R _ _)⟩

/-! ## A small renderer

It renders a rule to its `spec` under its own name. The hash of an entry is the entry, written so
that the id can be told from the body. -/

namespace Plain

def encode : List Char → List Char → List Char
  | [], body => '-' :: body
  | c :: id, body => '+' :: c :: encode id body

theorem encode_injective {id id' body body' : List Char}
    (same : encode id body = encode id' body') : id = id' ∧ body = body' := by
  induction id generalizing id' with
  | nil => cases id' <;> simp_all [encode]
  | cons c id ih =>
    cases id' with
    | nil => simp [encode] at same
    | cons c' id' =>
      simp only [encode, List.cons.injEq, true_and] at same
      obtain ⟨rfl, rfl⟩ := ih same.2
      simp [same.1]

end Plain

def plain : Renderer where
  ruleEntry r :=
    if r.id = "" then .error "ID must not be empty" else .ok ({ id := r.id, body := r.spec },
      r.name)
  sha256 e := String.ofList (Plain.encode e.id.toList e.body.toList)
  labelled {r e alert} rendered := by
    split at rendered <;> cases rendered
    exact ⟨rfl, by assumption⟩
  collisionFree := by
    rintro ⟨id, body⟩ ⟨id', body'⟩ same
    obtain ⟨ids, bodies⟩ := Plain.encode_injective (String.ofList_injective same)
    obtain rfl : id = id' := String.toList_injective ids
    obtain rfl : body = body' := String.toList_injective bodies
    rfl

end Kconmon.Console.PromRules
