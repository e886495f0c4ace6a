import Kconmon.Console.AlertWatcher
import Kconmon.Lib.Loops

/-!
# What is told about one alert

A poll handles each fingerprint on its own: what it does to one depends on what the watcher holds
about that one, on what is observed of it, and on the windows that were read. So a poll acts on the
`Track` of each fingerprint, and the pairing of notifications is an invariant of tracks.
-/
namespace Kconmon.Console.Webhooks
open Lib AlertWatcher

/-- What the watcher holds about one fingerprint. -/
structure Track where
  firing : Option Alert
  suppressed : Bool
  unchecked : Bool
  pendingResolve : Option Alert
  effects : List Effect

namespace Track

variable (fp : String)

def holdUnchecked (held : Alert → Bool) (t : Track) : Track :=
  if t.unchecked = true ∧ t.firing.any held = true then
    { t with unchecked := false, suppressed := true, effects :=
      .suppressed .alertFired fp :: t.effects }
  else { t with unchecked := false }

def decidePendingResolve (held : Alert → Bool) (t : Track) : Track :=
  match t.pendingResolve with
  | none => t
  | some a =>
    let effect := if held a then .suppressed .alertResolved fp else .notified .alertResolved fp a
    { t with pendingResolve := none, effects := effect :: t.effects }

/-- The alert is observed, or is not; `windows` are those that were read. -/
def observe (windows : Option (List MaintenanceWindow)) (resolvedAt : Time) (seen : Option Alert)
    (t : Track) : Track :=
  match t.firing, seen with
  | none, none => t
  | none, some a =>
    if covered (windows.getD []) a.labels then
      { t with firing := some a, pendingResolve := none, suppressed := true
               effects := .suppressed .alertFired fp :: t.effects }
    else { t with firing := some a, pendingResolve := none
                  effects := .notified .alertFired fp a :: t.effects }
  | some _, some a =>
    if t.suppressed ∧ windows.isSome ∧ covered (windows.getD []) a.labels = false then
      { t with firing := some a, pendingResolve := none, suppressed := false
               effects := .notified .alertFired fp a :: t.effects }
    else { t with firing := some a, pendingResolve := none }
  | some a, none =>
    let ended := { a with resolvedAt := some resolvedAt }
    if t.unchecked then
      { t with firing := none, unchecked := false, pendingResolve := some ended }
    else if t.suppressed then
      { t with firing := none, suppressed := false
               effects := .suppressed .alertResolved fp :: t.effects }
    else { t with firing := none, effects := .notified .alertResolved fp ended :: t.effects }

end Track

def AlertWatcher.track (w : AlertWatcher) (fp : String) : Track where
  firing := w.firing.lookup fp
  suppressed := (w.suppressed.lookup fp).isSome
  unchecked := (w.unchecked.lookup fp).isSome
  pendingResolve := w.pendingResolve.lookup fp
  effects := w.effects.filter (·.fp = fp)

/-! ## A poll acts on tracks -/

section Refinement

variable {d : AlertWatcherDeps} {w : AlertWatcher}

theorem sortedKeys_nodup {ν : Type*} (m : GoMap String ν) : (sortedKeys m).Nodup :=
  (List.perm_insertionSort _ _).nodup_iff.mpr m.keys_nodup

theorem mem_sortedKeys {ν : Type*} {m : GoMap String ν} {k : String} : k ∈ sortedKeys m ↔ k ∈ m :=
  (List.perm_insertionSort _ _).mem_iff

theorem track_holdUnchecked (w : AlertWatcher) (windows : List MaintenanceWindow)
    (byID : GoMap String AlertRule) (fp : String) :
    (w.holdUnchecked d windows byID).track fp = (w.track fp).holdUnchecked fp fun a =>
      covered windows a.labels && heldBefore d windows byID a := by
  let visit (w : AlertWatcher) (fp : String) : AlertWatcher :=
    if (w.firing.lookup fp).any (heldBefore d windows byID) then w.hold fp else w
  let here (fp : String) (t : Track) : Track :=
    if t.firing.any (heldBefore d windows byID) then
      { t with suppressed := true, effects := .suppressed .alertFired fp :: t.effects } else t
  have own : ∀ w fp, (visit w fp).track fp = here fp (w.track fp) := by
    intro w fp
    simp only [visit, here, track]
    split <;> simp [hold, countSuppressed, Effect.fp]
  have other : ∀ w fp fp', fp' ≠ fp → (visit w fp).track fp' = w.track fp' := by
    intro w fp fp' differ
    simp only [visit]
    split
    · simp [hold, countSuppressed, track, Effect.fp, differ, Ne.symm differ]
    · rfl
  have visits := foldl_keyed own other (w.unchecked.keys_nodup.filter fun fp =>
    (w.firing.lookup fp).any fun a => covered windows a.labels) w fp
  have cleared : (w.holdUnchecked d windows byID).track fp = { ((w.unchecked.keys.filter fun fp =>
      (w.firing.lookup fp).any fun a => covered windows a.labels).foldl visit w).track fp with
        unchecked := false } := rfl
  have candidate : fp ∈ w.unchecked.keys.filter (fun fp => (w.firing.lookup fp).any fun a =>
      covered windows a.labels) ↔ (w.track fp).unchecked = true ∧
        (w.track fp).firing.any (fun a => covered windows a.labels) = true := by
    rw [List.mem_filter, ← AList.mem_keys, ← AList.lookup_isSome]
    rfl
  rw [cleared, visits]
  simp only [candidate, Track.holdUnchecked, here]
  generalize w.track fp = t
  obtain ⟨firing, suppressed, unchecked, pendingResolve, effects⟩ := t
  cases firing with
  | none => simp
  | some a =>
    cases covers : covered windows a.labels <;> cases held : heldBefore d windows byID a <;>
      cases unchecked <;> simp [covers, held]

/-- One iteration of the loop over the pending resolves. -/
def visitPending (held : Alert → Bool) (w : AlertWatcher) (fp : String) : AlertWatcher :=
  match w.pendingResolve.lookup fp with
  | some a =>
    if held a then w.countSuppressed .alertResolved fp else w.notifyAlert .alertResolved fp a
  | none => w

/-- What it does to the alert it visits; the pending resolve goes after the loop. -/
def trackPending (held : Alert → Bool) (fp : String) (t : Track) : Track :=
  { t.decidePendingResolve fp held with pendingResolve := t.pendingResolve }

theorem track_decidePendingResolves (w : AlertWatcher) (windows : List MaintenanceWindow)
    (byID : GoMap String AlertRule) (fp : String) :
    (w.decidePendingResolves d windows byID).track fp =
      (w.track fp).decidePendingResolve fp (heldBefore d windows byID) := by
  let visit := visitPending (heldBefore d windows byID)
  let here := trackPending (heldBefore d windows byID)
  have own : ∀ w fp, (visit w fp).track fp = here fp (w.track fp) := by
    intro w fp
    simp only [visit, here, visitPending, trackPending, Track.decidePendingResolve, track]
    cases waits : w.pendingResolve.lookup fp with
    | none => simp [waits]
    | some a =>
      cases held : heldBefore d windows byID a <;>
        simp [countSuppressed, notifyAlert, Effect.fp, waits, held]
  have other : ∀ w fp fp', fp' ≠ fp → (visit w fp).track fp' = w.track fp' := by
    intro w fp fp' differ
    simp only [visit, visitPending]
    split
    · split <;> simp [countSuppressed, notifyAlert, track, Effect.fp, Ne.symm differ]
    · rfl
  have visits := foldl_keyed own other (sortedKeys_nodup w.pendingResolve) w fp
  have cleared : (w.decidePendingResolves d windows byID).track fp =
      { ((sortedKeys w.pendingResolve).foldl visit w).track fp with pendingResolve := none } := rfl
  have waits : fp ∈ sortedKeys w.pendingResolve ↔ (w.track fp).pendingResolve.isSome = true := by
    rw [mem_sortedKeys, ← AList.lookup_isSome]
    rfl
  rw [cleared, visits]
  simp only [waits, Track.decidePendingResolve, here, trackPending]
  cases pending : (w.track fp).pendingResolve with
  | none => simp [← pending]
  | some a => simp

/-- The loop over the observed alerts. -/
theorem track_observes (windows : Option (List MaintenanceWindow)) (observed : GoMap String Alert)
    (w : AlertWatcher) (fp : String) :
    ((sortedKeys observed).foldl (observe windows observed) w).track fp =
      match observed.lookup fp with
      | none => w.track fp
      | some a => { (w.track fp).observe fp windows 0 (some a) with firing :=
        (w.track fp).firing } := by
  let here (fp : String) (t : Track) : Track :=
    match observed.lookup fp with
    | none => t
    | some a => { t.observe fp windows 0 (some a) with firing := t.firing }
  have own : ∀ w fp, (observe windows observed w fp).track fp = here fp (w.track fp) := by
    intro w fp
    cases seen : observed.lookup fp with
    | none => simp [observe, here, seen]
    | some a =>
      cases known : w.firing.lookup fp with
      | none =>
        have new : fp ∉ w.firing := AList.lookup_eq_none.mp known
        cases covers : covered (windows.getD []) a.labels <;>
          simp [observe, here, seen, new, covers, Track.observe, track, known, hold,
            countSuppressed, notifyAlert, Effect.fp]
      | some b =>
        have old : fp ∈ w.firing := by simp [← AList.lookup_isSome, known]
        have held : fp ∈ w.suppressed ↔ (w.suppressed.lookup fp).isSome = true :=
          AList.lookup_isSome.symm
        simp only [observe, here, seen, old, not_true, if_false, Track.observe, track, known, held]
        split <;> simp [notifyAlert, Effect.fp, known]
  have other : ∀ w fp fp', fp' ≠ fp → (observe windows observed w fp).track fp' = w.track fp' := by
    intro w fp fp' differ
    unfold observe
    split
    · rfl
    · dsimp only
      repeat' split
      all_goals simp [hold, countSuppressed, notifyAlert, track, Effect.fp, differ, Ne.symm differ]
  rw [foldl_keyed own other (sortedKeys_nodup observed)]
  have listed : fp ∈ sortedKeys observed ↔ (observed.lookup fp).isSome = true :=
    mem_sortedKeys.trans AList.lookup_isSome.symm
  simp only [listed, here]
  cases observed.lookup fp <;> simp

/-- The loop over the alerts of the last observation. -/
theorem track_leaves (resolvedAt : Time) (observed : GoMap String Alert) (w : AlertWatcher)
    (fp : String) : ((sortedKeys w.firing).foldl (leave resolvedAt observed) w).track fp =
      match observed.lookup fp with
      | some _ => w.track fp
      | none => { (w.track fp).observe fp none resolvedAt none with firing :=
        (w.track fp).firing } := by
  let here (fp : String) (t : Track) : Track :=
    match observed.lookup fp with
    | some _ => t
    | none => { t.observe fp none resolvedAt none with firing := t.firing }
  have own : ∀ w fp, (leave resolvedAt observed w fp).track fp = here fp (w.track fp) := by
    intro w fp
    have seen : fp ∈ observed ↔ (observed.lookup fp).isSome = true := AList.lookup_isSome.symm
    have undecided : fp ∈ w.unchecked ↔ (w.unchecked.lookup fp).isSome = true :=
      AList.lookup_isSome.symm
    have held : fp ∈ w.suppressed ↔ (w.suppressed.lookup fp).isSome = true :=
      AList.lookup_isSome.symm
    simp only [leave, seen, undecided, held, here, track, Track.observe]
    cases known : w.firing.lookup fp with
    | none => cases observed.lookup fp <;> simp [known]
    | some a =>
      cases observed.lookup fp with
      | some b => simp [known]
      | none =>
        simp only [Option.isSome_none, Bool.false_eq_true, if_false]
        repeat' split
        all_goals simp_all [countSuppressed, notifyAlert, Effect.fp]
  have other : ∀ w fp fp', fp' ≠ fp → (leave resolvedAt observed w fp).track fp' = w.track fp' := by
    intro w fp fp' differ
    unfold leave
    split
    · rfl
    · dsimp only
      repeat' split
      all_goals simp [countSuppressed, notifyAlert, track, Effect.fp, differ, Ne.symm differ]
  rw [foldl_keyed own other (sortedKeys_nodup w.firing)]
  have listed : fp ∈ sortedKeys w.firing ↔ (w.track fp).firing.isSome = true :=
    mem_sortedKeys.trans AList.lookup_isSome.symm
  simp only [listed, here]
  generalize w.track fp = t
  obtain ⟨firing, suppressed, unchecked, pendingResolve, effects⟩ := t
  cases firing <;> cases observed.lookup fp <;> simp [Track.observe]

/-- Both loops and the new observation, seen from one fingerprint. -/
theorem track_observed (windows : Option (List MaintenanceWindow)) (resolvedAt : Time)
    (observed : GoMap String Alert) (w : AlertWatcher) (fp : String) :
    let w₁ := (sortedKeys observed).foldl (observe windows observed) w
    let w₂ := (sortedKeys w₁.firing).foldl (leave resolvedAt observed) w₁
    { w₂ with firing := observed }.track fp =
      (w.track fp).observe fp windows resolvedAt (observed.lookup fp) := by
  intro w₁ w₂
  have replaced : { w₂ with firing := observed }.track fp =
      { w₂.track fp with firing := observed.lookup fp } := rfl
  rw [replaced, track_leaves, track_observes]
  generalize w.track fp = t
  obtain ⟨firing, suppressed, unchecked, pendingResolve, effects⟩ := t
  cases observed.lookup fp with
  | none => cases firing <;> cases unchecked <;> cases suppressed <;> rfl
  | some a =>
    cases firing <;> simp only [Track.observe] <;> split <;> rfl

end Refinement

/-! ## The phases of a track -/

/-- The events an alert's receivers were told about, newest first. -/
def told : List Effect → List Event := List.filterMap fun
  | .notified event _ _ => some event
  | .suppressed _ _ => none

/-- Fired and resolved alternate. The first one told is fired, unless the alert was in the baseline
and nothing was held of it. -/
def Paired (inBaseline : Prop) : List Effect → Prop
  | [] => True
  | .suppressed _ _ :: es => Paired inBaseline es
  | .notified .alertFired _ _ :: es => (told es).head? ≠ some .alertFired ∧ Paired inBaseline es
  | .notified .alertResolved _ _ :: es =>
    ((told es).head? = some .alertFired ∨ inBaseline ∧ es = []) ∧ Paired inBaseline es

/-- The fields of a track hang together in one of five ways. -/
inductive Track.Sound (inBaseline : Prop) : Track → Prop
  | idle {es : List Effect} (last : (told es).head? ≠ some .alertFired) (paired :
    Paired inBaseline es) :
    Sound inBaseline ⟨none, false, false, none, es⟩
  | pending {a : Alert} (base : inBaseline) : Sound inBaseline ⟨none, false, false, some a, []⟩
  | unchecked {a : Alert} (base : inBaseline) : Sound inBaseline ⟨some a, false, true, none, []⟩
  | held {a : Alert} {es : List Effect} (last : (told es).head? ≠ some .alertFired)
    (paired : Paired inBaseline es) : Sound inBaseline ⟨some a, true, false, none, es⟩
  | known {a : Alert} {es : List Effect}
    (last : (told es).head? = some .alertFired ∨ inBaseline ∧ es = []) (paired :
      Paired inBaseline es) :
    Sound inBaseline ⟨some a, false, false, none, es⟩

namespace Track.Sound

variable {inBaseline : Prop} {t : Track} {fp : String}

theorem holdUnchecked (sound : Sound inBaseline t) (held : Alert → Bool) :
    Sound inBaseline (t.holdUnchecked fp held) := by
  cases sound with
  | idle last paired => exact .idle last paired
  | pending base => exact .pending base
  | held last paired => exact .held last paired
  | known last paired => exact .known last paired
  | unchecked base =>
    rename_i a
    cases before : held a with
    | false =>
      simp only [Track.holdUnchecked, Option.any_some, before]
      exact .known (.inr ⟨base, rfl⟩) trivial
    | true =>
      simp only [Track.holdUnchecked, Option.any_some, before]
      exact .held (by simp [told]) trivial

theorem decidePendingResolve (sound : Sound inBaseline t) (held : Alert → Bool) :
    Sound inBaseline (t.decidePendingResolve fp held) := by
  cases sound with
  | idle last paired => exact .idle last paired
  | held last paired => exact .held last paired
  | known last paired => exact .known last paired
  | unchecked base => exact .unchecked base
  | pending base =>
    rename_i a
    cases before : held a with
    | false =>
      simp only [Track.decidePendingResolve, before]
      exact .idle (by simp [told]) ⟨.inr ⟨base, rfl⟩, trivial⟩
    | true =>
      simp only [Track.decidePendingResolve, before]
      exact .idle (by simp [told]) trivial

/-- A new alert is held or told about. -/
theorem appear {windows : Option (List MaintenanceWindow)} {resolvedAt : Time} {a : Alert}
    {pendingResolve : Option Alert} {es : List Effect} (last : (told es).head? ≠ some .alertFired)
    (paired : Paired inBaseline es) : Sound inBaseline
      (Track.observe fp windows resolvedAt (some a) ⟨none, false, false, pendingResolve, es⟩) := by
  cases covers : covered (windows.getD []) a.labels with
  | true =>
    simp only [Track.observe, covers, if_true]
    exact .held last paired
  | false =>
    simp only [Track.observe, covers, Bool.false_eq_true, if_false]
    exact .known (.inl rfl) ⟨last, paired⟩

theorem observe (sound : Sound inBaseline t) (windows : Option (List MaintenanceWindow))
    (resolvedAt : Time) (seen : Option Alert) :
    Sound inBaseline (t.observe fp windows resolvedAt seen) := by
  cases seen with
  | some a =>
    cases sound with
    | idle last paired => exact appear last paired
    | pending base => exact appear (by simp [told]) trivial
    | unchecked base => exact .unchecked base
    | known last paired => exact .known last paired
    | held last paired =>
      simp only [Track.observe, true_and]
      split
      · exact .known (.inl rfl) ⟨last, paired⟩
      · exact .held last paired
  | none =>
    cases sound with
    | idle last paired => exact .idle last paired
    | pending base => exact .pending base
    | unchecked base => exact .pending base
    | held last paired => exact .idle last paired
    | known last paired => exact .idle (by simp [told]) ⟨last, paired⟩

end Track.Sound

/-! ## Every poll keeps the phases -/

namespace AlertWatcher

variable {d : AlertWatcherDeps} {w : AlertWatcher}

/-- Nothing is known before the baseline, and every track is in one of its phases. -/
structure Inv (w : AlertWatcher) : Prop where
  fresh : w.baselined = false → ∀ fp, w.track fp = ⟨none, false, false, none, []⟩
  sound : ∀ fp, (w.track fp).Sound (fp ∈ w.baseline)

/-- What the handling of an edge leaves alone. -/
structure Frame (w w' : AlertWatcher) : Prop where
  baseline : w'.baseline = w.baseline
  baselined : w'.baselined = w.baselined
  readErrors : w'.readErrors = w.readErrors

theorem Frame.refl (w : AlertWatcher) : Frame w w := ⟨rfl, rfl, rfl⟩

theorem Frame.trans {w w' w'' : AlertWatcher} (first : Frame w w') (second : Frame w' w'') :
    Frame w w'' :=
  ⟨second.baseline.trans first.baseline, second.baselined.trans first.baselined,
    second.readErrors.trans first.readErrors⟩

theorem Frame.foldl {f : AlertWatcher → String → AlertWatcher} (keep : ∀ w fp, Frame w (f w fp))
    (fps : List String) (w : AlertWatcher) : Frame w (fps.foldl f w) :=
  foldl_invariant (I := Frame w) (.refl w) fun w' fp _ kept => kept.trans (keep w' fp)

theorem frame_holdUnchecked (w : AlertWatcher) (windows : List MaintenanceWindow)
    (byID : GoMap String AlertRule) : Frame w (w.holdUnchecked d windows byID) := by
  refine (Frame.foldl (fun w fp => ?_) _ w).trans ⟨rfl, rfl, rfl⟩
  split <;> exact ⟨rfl, rfl, rfl⟩

theorem frame_decidePendingResolves (w : AlertWatcher) (windows : List MaintenanceWindow)
    (byID : GoMap String AlertRule) : Frame w (w.decidePendingResolves d windows byID) := by
  refine (Frame.foldl (fun w fp => ?_) _ w).trans ⟨rfl, rfl, rfl⟩
  repeat' split
  all_goals exact ⟨rfl, rfl, rfl⟩

theorem frame_observe (windows : Option (List MaintenanceWindow)) (observed : GoMap String Alert)
    (w : AlertWatcher) (fp : String) : Frame w (observe windows observed w fp) := by
  unfold observe
  split
  · exact .refl w
  · dsimp only
    repeat' split
    all_goals exact ⟨rfl, rfl, rfl⟩

theorem frame_leave (resolvedAt : Time) (observed : GoMap String Alert) (w : AlertWatcher)
    (fp : String) : Frame w (leave resolvedAt observed w fp) := by
  unfold leave
  split
  · exact .refl w
  · dsimp only
    repeat' split
    all_goals exact ⟨rfl, rfl, rfl⟩

theorem frame_observed (windows : Option (List MaintenanceWindow)) (resolvedAt : Time)
    (observed : GoMap String Alert) (w : AlertWatcher) :
    let w₁ := (sortedKeys observed).foldl (observe windows observed) w
    let w₂ := (sortedKeys w₁.firing).foldl (leave resolvedAt observed) w₁
    Frame w { w₂ with firing := observed } :=
  ((Frame.foldl (frame_observe windows observed) _ w).trans
    (Frame.foldl (frame_leave resolvedAt observed) _ _)).trans ⟨rfl, rfl, rfl⟩

/-- A read changes no track. Either it fails and is counted, or there are no windows to read, or it
returns the open ones. -/
structure Read (w w' : AlertWatcher) (now : Time) (pages : List Page)
    (windows : Option (List MaintenanceWindow)) : Prop where
  track : ∀ fp, w'.track fp = w.track fp
  baseline : w'.baseline = w.baseline
  baselined : w'.baselined = w.baselined
  failed : windows = none → w'.readErrors = w.readErrors + 1
  read : ∀ ws, windows = some ws →
    w'.readErrors = w.readErrors ∧ (ws = [] ∨ openPages now pages = some ws)

theorem Read.le {w w' : AlertWatcher} {now : Time} {pages : List Page}
    {windows : Option (List MaintenanceWindow)} (read : Read w w' now pages windows) :
    w.readErrors ≤ w'.readErrors := by
  cases windows with
  | none =>
    have failed := read.failed rfl
    omega
  | some ws =>
    have same := (read.read ws rfl).1
    omega

theorem read_openWindows (d : AlertWatcherDeps) (w : AlertWatcher) (now : Time)
    (pages : List Page) :
    Read w (w.openWindows d now pages).1 now pages (w.openWindows d now pages).2 := by
  unfold openWindows
  split
  · exact ⟨fun _ => rfl, rfl, rfl, by simp, by simp⟩
  · split
    · rename_i windows opened
      exact ⟨fun _ => rfl, rfl, rfl, by simp, fun ws same => ⟨rfl, .inr (opened.trans same)⟩⟩
    · exact ⟨fun _ => rfl, rfl, rfl, fun _ => rfl, by simp⟩

theorem read_windowsFor (d : AlertWatcherDeps) (w : AlertWatcher) (p : Poll)
    (observed : GoMap String Alert) :
    Read w (w.windowsFor d p observed).1 p.now p.pages (w.windowsFor d p observed).2 := by
  unfold windowsFor
  split
  · exact read_openWindows d w _ _
  · exact ⟨fun _ => rfl, rfl, rfl, by simp, by simp⟩

/-- The same of a read that is made only while a track is undecided: `none` without an error means
that there is no such track. -/
structure BaselineRead (w w' : AlertWatcher) (p : Poll)
    (windows : Option (List MaintenanceWindow)) : Prop where
  track : ∀ fp, w'.track fp = w.track fp
  baseline : w'.baseline = w.baseline
  baselined : w'.baselined = w.baselined
  le : w.readErrors ≤ w'.readErrors
  decided : w'.readErrors = w.readErrors → windows = none → ∀ fp, (w.track fp).unchecked = false
  read : ∀ ws, windows = some ws → ws = [] ∨ openPages w.baselineAt p.baselinePages = some ws

theorem read_baselineWindows (d : AlertWatcherDeps) (w : AlertWatcher) (p : Poll) :
    BaselineRead w (w.baselineWindows d p).1 p (w.baselineWindows d p).2 := by
  unfold baselineWindows
  split
  · rename_i nothing
    refine ⟨fun _ => rfl, rfl, rfl, Nat.le_refl _, fun _ _ fp => ?_, by simp⟩
    have out : fp ∉ w.unchecked := by simp [AList.mem_keys, nothing.1]
    simp [track, AList.lookup_eq_none.mpr out]
  · have read := read_openWindows d w w.baselineAt p.baselinePages
    refine ⟨read.track, read.baseline, read.baselined, read.le, fun same none => ?_,
      fun ws some => (read.read ws some).2⟩
    have failed := read.failed none
    omega

section Settle

variable (d : AlertWatcherDeps) (byID : GoMap String AlertRule)
  (baseline : Option (List MaintenanceWindow)) (fp : String)

/-- What a read of the baseline's windows holds of a track that fires. -/
def settleFiring (t : Track) : Track :=
  match baseline with
  | none => t
  | some windows => t.holdUnchecked fp fun a =>
    covered windows a.labels && heldBefore d windows byID a

/-- What it decides of a resolve that waits. -/
def settlePending (t : Track) : Track :=
  match baseline with
  | none => t
  | some windows => t.decidePendingResolve fp (heldBefore d windows byID)

theorem track_settleFiring (w : AlertWatcher) :
    (baseline.elim w fun windows => w.holdUnchecked d windows byID).track fp =
      settleFiring d byID baseline fp (w.track fp) := by
  cases baseline with
  | none => rfl
  | some windows => exact track_holdUnchecked w windows byID fp

theorem frame_settleFiring (w : AlertWatcher) :
    Frame w (baseline.elim w fun windows => w.holdUnchecked d windows byID) := by
  cases baseline with
  | none => exact .refl w
  | some windows => exact frame_holdUnchecked w windows byID

theorem track_settlePending (w : AlertWatcher) :
    (baseline.elim w fun windows => w.decidePendingResolves d windows byID).track fp =
      settlePending d byID baseline fp (w.track fp) := by
  cases baseline with
  | none => rfl
  | some windows => exact track_decidePendingResolves w windows byID fp

theorem frame_settlePending (w : AlertWatcher) :
    Frame w (baseline.elim w fun windows => w.decidePendingResolves d windows byID) := by
  cases baseline with
  | none => exact .refl w
  | some windows => exact frame_decidePendingResolves w windows byID

end Settle

/-- A later observation acts on each track by what its two reads returned. -/
theorem diff_spec (d : AlertWatcherDeps) (w : AlertWatcher) (p : Poll)
    (observed : GoMap String Alert) :
    ∃ baseline windows : Option (List MaintenanceWindow), (∀ fp, (w.diff d p observed).track fp =
        (settlePending d (rulesOnce d p) baseline fp
          (settleFiring d (rulesOnce d p) baseline fp (w.track fp))).observe fp windows p.resolvedAt
            ((enrich (rulesOnce d p) observed).lookup fp)) ∧
      (w.diff d p observed).baseline = w.baseline ∧ (w.diff d p observed).baselined = w.baselined ∧
      ((w.diff d p observed).readErrors = w.readErrors →
        (baseline = none → ∀ fp, (w.track fp).unchecked = false) ∧
          ∃ ws, windows = some ws ∧ (ws = [] ∨ openPages p.now p.pages = some ws)) := by
  have first := read_baselineWindows d w p
  unfold diff
  dsimp only
  generalize rulesOnce d p = byID
  generalize enrich byID observed = seen
  generalize w.baselineWindows d p = read at first ⊢
  obtain ⟨w₁, baseline⟩ := read
  dsimp only at first ⊢
  have tracks₂ := fun fp => track_settleFiring d byID baseline fp w₁
  have frame₂ := frame_settleFiring d byID baseline w₁
  generalize (baseline.elim w₁ fun windows => w₁.holdUnchecked d windows byID) = w₂
    at tracks₂ frame₂ ⊢
  have second := read_windowsFor d w₂ p seen
  generalize w₂.windowsFor d p seen = read at second ⊢
  obtain ⟨w₃, windows⟩ := read
  dsimp only at second ⊢
  have tracks₄ := fun fp => track_settlePending d byID baseline fp w₃
  have frame₄ := frame_settlePending d byID baseline w₃
  generalize (baseline.elim w₃ fun windows => w₃.decidePendingResolves d windows byID) = w₄
    at tracks₄ frame₄ ⊢
  have tracks₅ := track_observed windows p.resolvedAt seen w₄
  have frame₅ := frame₄.trans (frame_observed windows p.resolvedAt seen w₄)
  dsimp only at tracks₅ frame₅
  refine ⟨baseline, windows, fun fp => ?_, ?_⟩
  · rw [tracks₅, tracks₄, second.track, tracks₂, first.track]
  · refine ⟨frame₅.baseline.trans (second.baseline.trans (frame₂.baseline.trans first.baseline)),
      frame₅.baselined.trans (second.baselined.trans (frame₂.baselined.trans first.baselined)),
        fun same => ?_⟩
    have grown₁ := first.le
    have grown₂ := second.le
    have kept₂ := frame₂.readErrors
    have kept₃ : w₃.readErrors = w.readErrors := frame₅.readErrors.symm.trans same
    refine ⟨first.decided (by omega), ?_⟩
    cases windows with
    | none =>
      have failed := second.failed rfl
      omega
    | some ws => exact ⟨ws, rfl, (second.read ws rfl).2⟩

theorem sound_settleFiring {inBaseline : Prop} {t : Track} {byID : GoMap String AlertRule}
    {baseline : Option (List MaintenanceWindow)} {fp : String} (sound : t.Sound inBaseline) :
    (settleFiring d byID baseline fp t).Sound inBaseline := by
  cases baseline with
  | none => exact sound
  | some windows => exact sound.holdUnchecked _

theorem sound_settlePending {inBaseline : Prop} {t : Track} {byID : GoMap String AlertRule}
    {baseline : Option (List MaintenanceWindow)} {fp : String} (sound : t.Sound inBaseline) :
    (settlePending d byID baseline fp t).Sound inBaseline := by
  cases baseline with
  | none => exact sound
  | some windows => exact sound.decidePendingResolve _

theorem sound_settled (d : AlertWatcherDeps) (byID : GoMap String AlertRule)
    (baseline : Option (List MaintenanceWindow)) (fp : String) {inBaseline : Prop} {t : Track}
    (sound : t.Sound inBaseline) :
    (settlePending d byID baseline fp (settleFiring d byID baseline fp t)).Sound inBaseline :=
  sound_settlePending (sound_settleFiring sound)

theorem unchecked_settled {t : Track} {byID : GoMap String AlertRule}
    {baseline : Option (List MaintenanceWindow)} {fp : String}
    (checked : baseline = none → t.unchecked = false) :
    (settlePending d byID baseline fp (settleFiring d byID baseline fp t)).unchecked = false := by
  cases baseline with
  | none => exact checked rfl
  | some windows =>
    simp only [settlePending, settleFiring, Track.decidePendingResolve, Track.holdUnchecked]
    repeat' split
    all_goals rfl

theorem Inv.diff (inv : Inv w) (base : w.baselined = true) (p : Poll)
    (observed : GoMap String Alert) : Inv (w.diff d p observed) := by
  obtain ⟨baseline, windows, tracks, same, still, -⟩ := diff_spec d w p observed
  refine ⟨fun fresh => ?_, fun fp => ?_⟩
  · rw [still, base] at fresh
    cases fresh
  · rw [tracks, same]
    exact (sound_settled d _ baseline fp (inv.sound fp)).observe windows p.resolvedAt _

theorem track_rebase (d : AlertWatcherDeps) (inv : Inv w) (fresh : w.baselined = false) (p : Poll)
    (observed : GoMap String Alert) (fp : String) : (w.rebase d p observed).track fp =
      ⟨observed.lookup fp, false, d.maintenance && (observed.lookup fp).isSome, none, []⟩ := by
  have empty := inv.fresh fresh fp
  have listed : fp ∈ observed.keys ↔ (observed.lookup fp).isSome = true :=
    AList.mem_keys.symm.trans AList.lookup_isSome.symm
  simp only [track, Track.mk.injEq] at empty ⊢
  obtain ⟨-, suppressed, unchecked, pendingResolve, effects⟩ := empty
  refine ⟨rfl, suppressed, ?_, pendingResolve, effects⟩
  cases here : d.maintenance with
  | false => simpa [rebase, here] using unchecked
  | true =>
    simp only [rebase, here, if_true, GoMap.lookup_foldl_insert, listed]
    cases observed.lookup fp with
    | none => simpa using unchecked
    | some a => simp

/-- The baseline holds what a successful read of the windows says was held before. -/
theorem takeBaseline_spec (d : AlertWatcherDeps) (inv : Inv w) (fresh : w.baselined = false)
    (p : Poll)
    (observed : GoMap String Alert) : ∃ baseline : Option (List MaintenanceWindow),
      (∀ fp, (w.takeBaseline d p observed).track fp = settleFiring d (rulesOnce d p) baseline fp
          ⟨observed.lookup fp, false, d.maintenance && (observed.lookup fp).isSome, none, []⟩) ∧
      (∀ fp, fp ∈ (w.takeBaseline d p observed).baseline ↔ fp ∈ observed) ∧
      (w.takeBaseline d p observed).baselined = true ∧
      ((w.takeBaseline d p observed).readErrors = w.readErrors →
        (baseline = none → ∀ fp, (d.maintenance && (observed.lookup fp).isSome) = false) ∧
          ∀ ws, baseline = some ws → ws = [] ∨ openPages p.now p.baselinePages = some ws) := by
  have first := read_baselineWindows d (w.rebase d p observed) p
  have tracks₀ := track_rebase d inv fresh p observed
  have listed : ∀ fp, fp ∈ (w.rebase d p observed).baseline ↔ fp ∈ observed := by
    intro fp
    rw [← AList.lookup_isSome, AList.mem_keys]
    simp [rebase]
  have at_now : (w.rebase d p observed).baselineAt = p.now := rfl
  have errors₀ : (w.rebase d p observed).readErrors = w.readErrors := rfl
  have baselined₀ : (w.rebase d p observed).baselined = true := rfl
  unfold takeBaseline
  dsimp only
  generalize rulesOnce d p = byID
  generalize w.rebase d p observed = w₀ at first tracks₀ listed at_now errors₀ baselined₀ ⊢
  generalize w₀.baselineWindows d p = read at first ⊢
  obtain ⟨w₁, baseline⟩ := read
  dsimp only at first ⊢
  have frame := frame_settleFiring d byID baseline w₁
  refine ⟨baseline, fun fp => ?_, fun fp => ?_, ?_, fun same => ?_⟩
  · rw [track_settleFiring, first.track, tracks₀]
  · rw [frame.baseline, first.baseline, listed]
  · rw [frame.baselined, first.baselined, baselined₀]
  · have kept : w₁.readErrors = w₀.readErrors := by
      rw [← frame.readErrors, same, errors₀]
    refine ⟨fun none fp => ?_, fun ws some => at_now ▸ first.read ws some⟩
    simpa [tracks₀] using first.decided kept none fp

theorem Inv.takeBaseline (inv : Inv w) (fresh : w.baselined = false) (p : Poll)
    (observed : GoMap String Alert) : Inv (w.takeBaseline d p observed) := by
  obtain ⟨baseline, tracks, listed, done, -⟩ := takeBaseline_spec d inv fresh p observed
  refine ⟨fun again => absurd (done.symm.trans again) (by simp), fun fp => ?_⟩
  rw [tracks]
  refine sound_settleFiring ?_
  cases seen : observed.lookup fp with
  | none => simpa using .idle (by simp [told]) trivial
  | some a =>
    have base : fp ∈ (w.takeBaseline d p observed).baseline := by
      rw [listed, ← AList.lookup_isSome, seen]
      rfl
    cases d.maintenance with
    | false => exact .known (.inr ⟨base, rfl⟩) trivial
    | true => exact .unchecked base

theorem Inv.poll (inv : Inv w) (p : Poll) : Inv (w.poll d p) := by
  unfold AlertWatcher.poll
  split
  · exact inv
  · rename_i observed _
    cases base : w.baselined with
    | true => exact inv.diff base p observed
    | false => exact inv.takeBaseline base p observed

theorem inv_new : Inv {} := ⟨fun _ _ => rfl, fun _ => .idle (by simp [told]) trivial⟩

/-- Every sequence of polls keeps the invariant. -/
theorem Inv.polls (d : AlertWatcherDeps) (inv : Inv w) (polls : List Poll) :
    Inv (polls.foldl (AlertWatcher.poll d) w) := foldl_invariant inv fun _ p _ kept => kept.poll p

end AlertWatcher

end Kconmon.Console.Webhooks
