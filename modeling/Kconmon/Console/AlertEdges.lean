import Kconmon.Console.AlertTracks

/-!
# Fired and resolved come in pairs

From the phases of the tracks: what the receivers of an alert are told alternates, nothing is
resolved that was not fired before unless the baseline had it, and after a poll whose reads
succeeded every observed alert is accounted for.
-/
namespace Kconmon.Console.Webhooks
open Lib

def AlertWatcher.effectsAt (w : AlertWatcher) (fp : String) : List Effect :=
    w.effects.filter (·.fp = fp)

/-- A window the poll was given to read. -/
def Poll.lists (p : Poll) (mw : MaintenanceWindow) : Prop :=
  ∃ windows, some windows ∈ p.baselinePages ++ p.pages ∧ mw ∈ windows

theorem mem_openPages {now : Time} {pages : List Page} {ws : List MaintenanceWindow}
    (read : openPages now pages = some ws) {mw : MaintenanceWindow} (mem : mw ∈ ws) :
    mw.openAt now = true ∧ ∃ windows, some windows ∈ pages ∧ mw ∈ windows := by
  induction pages generalizing ws with
  | nil =>
    cases read
    simp at mem
  | cons page pages ih =>
    cases page with
    | none => cases read
    | some windows =>
      obtain ⟨rest, later, rfl⟩ := Option.map_eq_some_iff.mp read
      rcases List.mem_append.mp mem with here | there
      · obtain ⟨listed, opened⟩ := List.mem_filter.mp here
        exact ⟨opened, windows, List.mem_cons_self, listed⟩
      · obtain ⟨opened, windows, listed, mem⟩ := ih later there
        exact ⟨opened, windows, List.mem_cons_of_mem _ listed, mem⟩

theorem isChain_told_cons {event : Event} {es : List Event} (chain : es.IsChain (· ≠ ·))
    (differ : es.head? ≠ some event) : (event :: es).IsChain (· ≠ ·) := by
  cases es with
  | nil => exact .singleton event
  | cons event' es => exact .cons_cons (fun same => differ (by simp [same])) chain

/-- Two events of one kind are never told in a row. -/
theorem Paired.alternate {inBaseline : Prop} {es : List Effect} (paired : Paired inBaseline es) :
    (told es).IsChain (· ≠ ·) := by
  induction es with
  | nil => exact .nil
  | cons e es ih =>
    cases e with
    | suppressed event fp => exact ih paired
    | notified event fp a =>
      cases event with
      | alertFired => exact isChain_told_cons (ih paired.2) paired.1
      | alertResolved =>
        refine isChain_told_cons (ih paired.2) ?_
        rcases paired.1 with fired | ⟨-, rfl⟩
        · exact fun resolved => nomatch fired.symm.trans resolved
        · simp

/-- A resolved follows a fired, or is the first effect of a baseline alert. -/
theorem Paired.of_resolved {inBaseline : Prop} {later earlier : List Effect} {fp : String}
    {a : Alert}
    (paired : Paired inBaseline (later ++ .notified .alertResolved fp a :: earlier)) :
    (told earlier).head? = some .alertFired ∨ inBaseline ∧ earlier = [] := by
  induction later with
  | nil => exact paired.1
  | cons e later ih =>
    cases e with
    | suppressed event fp => exact ih paired
    | notified event fp a => cases event <;> exact ih paired.2

theorem Track.Sound.paired {inBaseline : Prop} {t : Track} (sound : t.Sound inBaseline) :
    Paired inBaseline t.effects := by
  cases sound with
  | idle last paired => exact paired
  | pending base => exact trivial
  | unchecked base => exact trivial
  | held last paired => exact paired
  | known last paired => exact paired

/-- What fires after an observation with known windows was told about, or is an alert of the
baseline of which nothing was told or held, or is held by one of the windows. -/
theorem Track.Sound.accounted {inBaseline : Prop} {t : Track} (sound : t.Sound inBaseline)
    (decided : t.unchecked = false) (fp : String) (windows : List MaintenanceWindow)
    (resolvedAt : Time) (a : Alert) :
    (told (t.observe fp (some windows) resolvedAt (some a)).effects).head? = some .alertFired ∨
      (inBaseline ∧ (t.observe fp (some windows) resolvedAt (some a)).effects = []) ∨
      ((t.observe fp (some windows) resolvedAt (some a)).suppressed = true ∧
        covered windows a.labels = true) := by
  cases covers : covered windows a.labels with
  | false =>
    cases sound with
    | idle last paired => simp [Track.observe, covers, told]
    | pending base => simp [Track.observe, covers, told]
    | unchecked base => cases decided
    | held last paired => simp [Track.observe, covers, told]
    | known last paired => exact last.imp_right .inl
  | true =>
    cases sound with
    | idle last paired => simp [Track.observe, covers]
    | pending base => simp [Track.observe, covers]
    | unchecked base => cases decided
    | held last paired => simp [Track.observe, covers]
    | known last paired => exact last.imp_right .inl

theorem AlertWatcher.effects_track (w : AlertWatcher) (fp : String) :
    (w.track fp).effects = w.effectsAt fp := rfl

theorem AlertWatcher.Inv.lists {w : AlertWatcher} (inv : w.Inv) (fp : String) :
    (fp ∈ w.suppressed → fp ∈ w.firing) ∧ (fp ∈ w.unchecked → fp ∈ w.firing) ∧
      (fp ∈ w.pendingResolve → fp ∉ w.firing) := by
  have sound := inv.sound fp
  simp only [← AList.lookup_isSome]
  generalize same : w.track fp = t at sound
  obtain ⟨firing, suppressed, unchecked, pendingResolve, effects⟩ := t
  simp only [AlertWatcher.track, Track.mk.injEq] at same
  obtain ⟨firing, suppressed, unchecked, pendingResolve, -⟩ := same
  rw [firing, suppressed, unchecked, pendingResolve]
  cases sound <;> simp

theorem enrich_lookup {byID : GoMap String AlertRule} {observed : GoMap String Alert} {fp : String}
    {a : Alert} (seen : observed.lookup fp = some a) :
    ∃ a', (enrich byID observed).lookup fp = some a' ∧ a'.labels = a.labels := by
  unfold enrich
  rw [GoMap.lookup_mapValues, seen]
  refine ⟨_, rfl, ?_⟩
  dsimp only
  split <;> rfl

/-- The alert was told about as fired and not as resolved since, or is one of the baseline's and was
never held, or is held by a window that is open at the poll. -/
def Accounted (w : AlertWatcher) (p : Poll) (fp : String) (a : Alert) : Prop :=
  (told (w.effectsAt fp)).head? = some .alertFired ∨
    (fp ∈ w.baseline ∧ ∀ event, Effect.suppressed event fp ∉ w.effects) ∨
    (fp ∈ w.suppressed ∧ ∃ mw, p.lists mw ∧ mw.openAt p.now = true ∧
      scopeCovers mw.scope a.labels = true)

theorem AlertWatcher.not_suppressed {w : AlertWatcher} {fp : String}
    (none : (w.track fp).effects = [])
    (event : Event) : Effect.suppressed event fp ∉ w.effects := by
  intro mem
  have here : Effect.suppressed event fp ∈ (w.track fp).effects :=
    List.mem_filter.mpr ⟨mem, by simp [Effect.fp]⟩
  rw [none] at here
  simp at here

theorem Accounted.of_track {w : AlertWatcher} {p : Poll} {fp : String} {a : Alert}
    {windows : List MaintenanceWindow} {pages : List Page}
    (cases : (told (w.track fp).effects).head? = some .alertFired ∨
      (fp ∈ w.baseline ∧ (w.track fp).effects = []) ∨
      ((w.track fp).suppressed = true ∧ covered windows a.labels = true))
    (listed : pages ⊆ p.baselinePages ++ p.pages)
    (read : windows = [] ∨ openPages p.now pages = some windows) : Accounted w p fp a := by
  refine cases.imp id
    (Or.imp (And.imp_right AlertWatcher.not_suppressed) (And.imp ?_ fun covers => ?_))
  · exact (AList.lookup_isSome (s := w.suppressed)).mp
  · obtain ⟨mw, mem, covers⟩ := List.any_eq_true.mp covers
    rcases read with rfl | read
    · simp at mem
    · obtain ⟨opened, ws, page, inside⟩ := mem_openPages read mem
      exact ⟨mw, ⟨ws, listed page, inside⟩, opened, covers⟩

theorem AlertWatcher.Inv.accounted {d : AlertWatcherDeps} {w : AlertWatcher} (inv : w.Inv)
    {p : Poll}
    {observed : GoMap String Alert} (good : decode d p.now p.answer = some observed)
    (reads : (w.poll d p).readErrors = w.readErrors) {fp : String} {a : Alert}
    (seen : observed.lookup fp = some a) : Accounted (w.poll d p) p fp a := by
  cases base : w.baselined with
  | true =>
    have polled : w.poll d p = w.diff d p observed := by simp [AlertWatcher.poll, good, base]
    rw [polled] at reads ⊢
    obtain ⟨baseline, windows, tracks, same, -, decided⟩ := diff_spec d w p observed
    obtain ⟨checked, ws, rfl, read⟩ := decided reads
    obtain ⟨a', enriched, labels⟩ : ∃ a', (enrich (rulesOnce d p) observed).lookup fp = some a' ∧
      a'.labels = a.labels := enrich_lookup seen
    have track := tracks fp
    rw [enriched] at track
    have settled := sound_settled d (rulesOnce d p) baseline fp (inv.sound fp)
    have ended :=
      settled.accounted (unchecked_settled fun none => checked none fp) fp ws p.resolvedAt a'
    rw [← track, ← same, labels] at ended
    exact .of_track ended (List.subset_append_right _ _) read
  | false =>
    have polled : w.poll d p = w.takeBaseline d p observed :=
      by simp [AlertWatcher.poll, good, base]
    rw [polled] at reads ⊢
    obtain ⟨baseline, tracks, listed, -, decided⟩ := takeBaseline_spec d inv base p observed
    obtain ⟨checked, read⟩ := decided reads
    have track := tracks fp
    have member : fp ∈ (w.takeBaseline d p observed).baseline := by
      rw [listed, ← AList.lookup_isSome, seen]
      rfl
    rw [seen] at track
    cases baseline with
    | none =>
      have untold : (w.takeBaseline d p observed |>.track fp).effects = [] := by rw [track]; rfl
      exact .inr (.inl ⟨member, AlertWatcher.not_suppressed untold⟩)
    | some ws =>
      refine .of_track (.inr ?_) (List.subset_append_left _ _) (read ws rfl)
      rw [track]
      simp only [AlertWatcher.settleFiring, Track.holdUnchecked]
      split
      · rename_i held
        have covers : covered ws a.labels = true := by
          simp only [Option.any_some, Bool.and_eq_true] at held
          exact held.2.1
        exact .inr ⟨rfl, covers⟩
      · exact .inl ⟨member, rfl⟩

/-- **Notifications are paired and nothing held is forgotten.** After any sequence of polls: an
alert is never told about as fired twice in a row, or as resolved twice in a row; it is told about
as resolved only after a fired, or when it was in the baseline and nothing was held of it; held and
unchecked alerts fire, and alerts whose resolve waits do not. And a further good poll whose reads of
the windows succeed accounts for every alert it observes. -/
theorem notifications_paired (d : AlertWatcherDeps) (polls : List Poll) :
    let w : AlertWatcher := polls.foldl (AlertWatcher.poll d) {}
    (∀ fp, (told (w.effectsAt fp)).IsChain (· ≠ ·)) ∧
      (∀ fp a later earlier, w.effectsAt fp = later ++ .notified .alertResolved fp a :: earlier →
        (told earlier).head? = some .alertFired ∨
          fp ∈ w.baseline ∧ ∀ event, Effect.suppressed event fp ∉ earlier) ∧
      (∀ fp, (fp ∈ w.suppressed → fp ∈ w.firing) ∧ (fp ∈ w.unchecked → fp ∈ w.firing) ∧
        (fp ∈ w.pendingResolve → fp ∉ w.firing)) ∧
      ∀ p observed, decode d p.now p.answer = some observed →
        (w.poll d p).readErrors = w.readErrors →
        ∀ fp a, observed.lookup fp = some a → Accounted (w.poll d p) p fp a := by
  intro w
  have inv : w.Inv := AlertWatcher.inv_new.polls d polls
  refine ⟨fun fp => ?_, fun fp a later earlier split => ?_, inv.lists,
    fun p observed good reads fp a seen => ?_⟩
  · exact (inv.sound fp).paired.alternate
  · have paired := (inv.sound fp).paired
    rw [w.effects_track, split] at paired
    refine paired.of_resolved.imp_right fun ⟨base, first⟩ => ⟨base, fun event => ?_⟩
    simp [first]
  · exact inv.accounted good reads seen

namespace Pages

def deps : AlertWatcherDeps := { rules := true, maintenance := true, interval := 0, sha256 := id }

/-- One alert on node "a", firing since time 5. -/
def loss : PromAlert where
  labels := AList.insert "kconmon_ng_rule_id" "r" (AList.insert "source_node" "a" ∅)
  annotations := ∅
  state := "firing"
  activeAt := some 5

def fp : String := fingerprint deps "r" loss.labels

/-- Maintenance of node "a" from time 1 to time 20. -/
def window : MaintenanceWindow := { scope := "a", startAt := 1, endAt := 20, createdAt := 0 }

def pollAt (now : Time) (alerts : List PromAlert) (pages : List Page) : Poll where
  answer := .body { status := "success", alerts }
  now
  resolvedAt := now
  baselinePages := pages
  pages
  rules := none

/-- The baseline cannot read the windows; the next poll can, holds the alert and, the window having
closed, delivers it; then the alert ends. -/
def history : List Poll :=
  [pollAt 10 [loss] [none], pollAt 30 [loss] [some [window]], pollAt 40 [] [some [window]]]

end Pages

theorem notifications_paired_pages :
    ∃ w : AlertWatcher, w = Pages.history.foldl (AlertWatcher.poll Pages.deps) {} ∧
      told (w.effectsAt Pages.fp) = [.alertResolved, .alertFired] ∧
      ∃ a, Accounted (w.poll Pages.deps (Pages.pollAt 15 [Pages.loss] [some [Pages.window]]))
        (Pages.pollAt 15 [Pages.loss] [some [Pages.window]]) Pages.fp a := by
  refine ⟨_, rfl, by decide, ?_⟩
  obtain ⟨-, -, -, accounted⟩ := notifications_paired Pages.deps Pages.history
  let p := Pages.pollAt 15 [Pages.loss] [some [Pages.window]]
  let observed := (decode Pages.deps p.now p.answer).get (by decide)
  let a := (observed.lookup Pages.fp).get (by decide)
  exact ⟨a, accounted p observed (Option.some_get _).symm (by decide) Pages.fp a
    (Option.some_get _).symm⟩

end Kconmon.Console.Webhooks
