import Kconmon.Controller.Replan

/-!
# The plan in force follows the registry and the topology

Whoever holds `notifyMu` knows the agents; the topology may change under it, but then
the reload that stored it still has its own `SetPeerPlan` ahead. So as long as some
publication is under way the plan may be stale, and when none is, it is not.
-/
namespace Kconmon.Controller.Replan
open Lib Model Meshplan

/-! ## What a stage knows -/

namespace Stage

def holdsNotify : Stage → Bool
  | ordered _ | writing _ | written _ | notifying _ | copying _ | loading _ | snapshotting _ _
  | reading _ _ | read _ _ _ | planning _ _ _ | scheduling _ _ | leaving _ => true
  | _ => false

def holdsMu : Stage → Bool
  | writing _ | written _ | copying _ | reading _ _ | read _ _ _ | settingTTL _ => true
  | _ => false

def snap : Stage → Option Snapshot
  | written published => published
  | notifying snap | copying snap | loading snap | read snap _ _ | planning snap _ _
  | scheduling snap _ => some snap
  | _ => none

/-- The topology of a reload that has stored it and has not set its plan yet. -/
def pending : Stage → Option TopologyConfig
  | entering next _ | snapshotting next _ | reading next _ | read _ next _
  | planning _ next (some _) => some next
  | _ => none

/-- The topology that a callback has loaded. -/
def loaded : Stage → Option TopologyConfig
  | planning _ topology none => some topology
  | _ => none

/-- A `SetPeerPlan` is ahead, after the change that calls for it. -/
def owes : Stage → Bool
  | written published => published.isSome
  | notifying _ | copying _ | loading _ | entering _ _ | snapshotting _ _ | reading _ _
  | read _ _ _ | planning _ _ _ => true
  | _ => false

variable {stage : Stage}

theorem holdsNotify_of_snap {s : Snapshot} (held : stage.snap = some s) :
    stage.holdsNotify = true := by
  cases stage <;> simp_all [snap, holdsNotify]

variable {t : TopologyConfig}

theorem holdsNotify_of_loaded (held : stage.loaded = some t) : stage.holdsNotify = true := by
  cases stage <;> simp_all [loaded, holdsNotify]

theorem isReload_of_pending (held : stage.pending = some t) : stage.isReload = true := by
  unfold pending at held
  split at held <;> simp_all [isReload]

theorem owes_of_pending (held : stage.pending = some t) : stage.owes = true := by
  unfold pending at held
  split at held <;> simp_all [owes]

end Stage

namespace State

/-- Some reload has stored the topology and not set its plan yet. -/
def Pending (st : State) : Prop :=
  ∃ q stage next, st.calls.lookup q = some stage ∧ stage.pending = some next

/-- Some publication is under way. -/
def Owes (st : State) : Prop := ∃ q stage, st.calls.lookup q = some stage ∧ stage.owes = true

/-- A change was published or another topology stored. -/
def Changed (st : State) : Prop := 1 < st.history.length ∨ 0 < st.reloads

/-- The plan is the one for the current agents and the current topology. -/
def InForce (st : State) : Prop :=
  ∀ ord, seen (build ord st.registry.snapshotLocked st.topology) = seen (.ok st.plan)

end State

/-- A listing of the agents that the registry holds now. -/
def Current (st : State) (s : Snapshot) : Prop :=
  s.agents.Perm st.registry.snapshotLocked ∧ s.mutation + 1 = st.history.length

/-- What holds of a call in progress. -/
structure Fits (st : State) (q : Nat) (stage : Stage) : Prop where
  notifyMu : stage.holdsNotify = true ↔ st.notifyMu = some q
  mu : stage.holdsMu = true ↔ st.mu = some q
  snap : ∀ s, stage.snap = some s → Current st s
  pending : ∀ next, stage.pending = some next → next = st.topology
  loaded : ∀ t, stage.loaded = some t → t = st.topology ∨ st.Pending

structure Inv (st : State) : Prop where
  keyed : st.registry.Keyed
  fits : ∀ q stage, st.calls.lookup q = some stage → Fits st q stage
  holders : ∀ q, st.calls.lookup q = none → st.notifyMu ≠ some q ∧ st.mu ≠ some q
  one : ∀ q q' stage stage', st.calls.lookup q = some stage → st.calls.lookup q' = some stage' →
    stage.isReload = true → stage'.isReload = true → q = q'
  last : ∃ listing, st.history.getLast? = some listing ∧ listing.Perm st.registry.snapshotLocked
  fresh : st.Changed → st.Owes ∨ st.InForce
  ordered : (st.scheduled.map Snapshot.mutation).Pairwise (· ≤ ·)
  reflects : ∀ s ∈ st.scheduled, ∃ listing, st.history[s.mutation]? = some listing ∧
    s.agents.Perm listing

theorem distinct_of_keyed {r : Registry} (keyed : r.Keyed) :
    (r.snapshotLocked.map AgentInfo.id).Nodup := by
  have ids : r.snapshotLocked.map AgentInfo.id = r.agents.entries.map Sigma.fst := by
    rw [Registry.snapshotLocked, List.map_map]
    refine List.map_congr_left fun e listed => ?_
    exact keyed e.1 e.2 (AList.mem_lookup_iff.mpr listed)
  rw [ids]
  exact r.agents.nodupKeys

/-! ## Steps that move one call only -/

theorem Fits.other {st st' : State} {q : Nat} {stage : Stage} (fits : Fits st q stage)
    (notifyMu : st'.notifyMu = some q ↔ st.notifyMu = some q)
    (mu : st'.mu = some q ↔ st.mu = some q)
    (agents : st.notifyMu = some q → ∀ s, Current st s → Current st' s)
    (topology : st'.topology = st.topology ∨ stage.pending = none ∧ st'.Pending)
    (pending : st.notifyMu = some q → st.Pending → st'.Pending) : Fits st' q stage where
  notifyMu := fits.notifyMu.trans notifyMu.symm
  mu := fits.mu.trans mu.symm
  snap s held := agents (fits.notifyMu.mp (Stage.holdsNotify_of_snap held)) s (fits.snap s held)
  pending next held := by
    rcases topology with same | ⟨none, -⟩
    · rw [same]
      exact fits.pending next held
    · rw [none] at held
      cases held
  loaded t held := by
    rcases topology with same | ⟨-, stored⟩
    · rw [same]
      exact (fits.loaded t held).imp_right
        (pending (fits.notifyMu.mp (Stage.holdsNotify_of_loaded held)))
    · exact .inr stored

/-- What a step of `q` leaves alone when it neither writes nor publishes. -/
structure Dry (st st' : State) (q : Nat) : Prop where
  keyed : st'.registry.Keyed
  agents : st'.registry.snapshotLocked.Perm st.registry.snapshotLocked
  topology : st'.topology = st.topology
  plan : st'.plan = st.plan
  history : st'.history = st.history
  reloads : st'.reloads = st.reloads
  scheduled : st'.scheduled = st.scheduled
  notifyMu : ∀ q' ≠ q, (st'.notifyMu = some q' ↔ st.notifyMu = some q')
  mu : ∀ q' ≠ q, (st'.mu = some q' ↔ st.mu = some q')
  calls : ∀ q' ≠ q, st'.calls.lookup q' = st.calls.lookup q'

/-- What the call `q` keeps up for the others: a reload stays the only one, and a plan that is
owed stays owed. -/
structure Keeps (st st' : State) (q : Nat) : Prop where
  reload : ∀ stage', st'.calls.lookup q = some stage' → stage'.isReload = true →
    (∃ stage, st.calls.lookup q = some stage ∧ stage.isReload = true) ∨
      ∀ p stage, st.calls.lookup p = some stage → stage.isReload = false
  owes : ∀ stage, st.calls.lookup q = some stage → stage.owes = true →
    ∃ stage', st'.calls.lookup q = some stage' ∧ stage'.owes = true
  pending : ∀ stage next, st.calls.lookup q = some stage → stage.pending = some next →
    ∃ stage' next', st'.calls.lookup q = some stage' ∧ stage'.pending = some next'

section
variable {st st' : State} {q : Nat}

theorem Dry.current (dry : Dry st st' q) {s : Snapshot} (current : Current st s) :
    Current st' s := by
  refine ⟨current.1.trans dry.agents.symm, ?_⟩
  rw [dry.history]
  exact current.2

theorem Dry.inForce (dry : Dry st st' q) (inForce : st.InForce) : st'.InForce := by
  intro ord
  rw [seen_build_of_perm ord ord dry.agents (distinct_of_keyed dry.keyed), dry.topology, dry.plan]
  exact inForce ord

theorem Inv.one_of (inv : Inv st) (calls : ∀ q' ≠ q, st'.calls.lookup q' = st.calls.lookup q')
    (kind : ∀ stage', st'.calls.lookup q = some stage' → stage'.isReload = true →
      (∃ stage, st.calls.lookup q = some stage ∧ stage.isReload = true) ∨
        ∀ p stage, st.calls.lookup p = some stage → stage.isReload = false) :
    ∀ a b stage stage', st'.calls.lookup a = some stage → st'.calls.lookup b = some stage' →
      stage.isReload = true → stage'.isReload = true → a = b := by
  have with_q : ∀ a stage, a ≠ q → st'.calls.lookup a = some stage → stage.isReload = true →
      ∀ stage', st'.calls.lookup q = some stage' → stage'.isReload = false := by
    intro a stage differ found reload stage' here
    rw [calls a differ] at found
    by_contra reload'
    rw [Bool.not_eq_false] at reload'
    rcases kind stage' here reload' with ⟨before, held, was⟩ | alone
    · exact differ (inv.one a q stage before found held reload was)
    · rw [alone a stage found] at reload
      cases reload
  intro a b stage stage' ha hb reload reload'
  by_cases aq : a = q <;> by_cases bq : b = q
  · rw [aq, bq]
  · have := with_q b stage' bq hb reload' stage (aq ▸ ha)
    grind
  · have := with_q a stage aq ha reload stage' (bq ▸ hb)
    grind
  · rw [calls a aq] at ha
    rw [calls b bq] at hb
    exact inv.one a b stage stage' ha hb reload reload'

theorem Keeps.pending_of (keeps : Keeps st st' q)
    (calls : ∀ q' ≠ q, st'.calls.lookup q' = st.calls.lookup q') (before : st.Pending) :
    st'.Pending := by
  obtain ⟨p, stage, next, found, held⟩ := before
  by_cases here : p = q
  · obtain ⟨stage', next', found', held'⟩ := keeps.pending stage next (here ▸ found) held
    exact ⟨q, stage', next', found', held'⟩
  · exact ⟨p, stage, next, by rw [calls p here, found], held⟩

theorem Keeps.owes_of (keeps : Keeps st st' q)
    (calls : ∀ q' ≠ q, st'.calls.lookup q' = st.calls.lookup q') (before : st.Owes) : st'.Owes := by
  obtain ⟨p, stage, found, held⟩ := before
  by_cases here : p = q
  · obtain ⟨stage', found', held'⟩ := keeps.owes stage (here ▸ found) held
    exact ⟨q, stage', found', held'⟩
  · exact ⟨p, stage, by rw [calls p here, found], held⟩

theorem Inv.dry (inv : Inv st) (dry : Dry st st' q) (keeps : Keeps st st' q)
    (fits : ∀ stage', st'.calls.lookup q = some stage' → Fits st' q stage')
    (gone : st'.calls.lookup q = none → st'.notifyMu ≠ some q ∧ st'.mu ≠ some q) : Inv st' where
  keyed := dry.keyed
  fits p stage found := by
    by_cases here : p = q
    · exact here ▸ fits stage (here ▸ found)
    · rw [dry.calls p here] at found
      exact (inv.fits p stage found).other (dry.notifyMu p here) (dry.mu p here)
        (fun _ _ => dry.current) (.inl dry.topology) fun _ => keeps.pending_of dry.calls
  holders p absent := by
    by_cases here : p = q
    · exact here ▸ gone (here ▸ absent)
    · rw [ne_eq, ne_eq, dry.notifyMu p here, dry.mu p here]
      exact inv.holders p (dry.calls p here ▸ absent)
  one := inv.one_of dry.calls keeps.reload
  last := by
    obtain ⟨listing, last, perm⟩ := inv.last
    exact ⟨listing, by rw [dry.history, last], perm.trans dry.agents.symm⟩
  fresh changed := by
    rw [State.Changed, dry.history, dry.reloads] at changed
    exact (inv.fresh changed).imp (keeps.owes_of dry.calls) dry.inForce
  ordered := by
    rw [dry.scheduled]
    exact inv.ordered
  reflects := by
    rw [dry.scheduled, dry.history]
    exact inv.reflects

end

/-- A call goes on and owes what it owed. -/
structure Stage.Upholds (stage stage' : Stage) : Prop where
  reload : stage'.isReload = true → stage.isReload = true
  owes : stage.owes = true → stage'.owes = true
  pending : stage.pending.isSome = true → stage'.pending.isSome = true

/-- A call goes on and knows nothing new. -/
structure Stage.Continues (stage stage' : Stage) : Prop extends stage.Upholds stage' where
  snap : ∀ s, stage'.snap = some s → stage.snap = some s
  pending_eq : ∀ next, stage'.pending = some next → stage.pending = some next
  loaded : stage'.loaded = none

theorem Stage.Continues.of_eq {stage stage' : Stage} (reload : stage'.isReload = stage.isReload)
    (owes : stage'.owes = stage.owes) (pending : stage'.pending = stage.pending)
    (snap : stage'.snap = stage.snap) (loaded : stage'.loaded = none) : stage.Continues stage' where
  reload := by rw [reload]; exact id
  owes := by rw [owes]; exact id
  pending := by rw [pending]; exact id
  snap _ := by rw [snap]; exact id
  pending_eq _ := by rw [pending]; exact id
  loaded := loaded

/-- The call has no plan to set. -/
structure Stage.Idle (stage : Stage) : Prop where
  owes : stage.owes = false
  pending : stage.pending = none

section
variable {st st' : State} {q : Nat} {stage stage' : Stage}

theorem Stage.Upholds.keeps (cont : stage.Upholds stage')
    (here : st.calls.lookup q = some stage) (there : st'.calls.lookup q = some stage') :
    Keeps st st' q where
  reload := by
    rintro _ found reload
    cases there.symm.trans found
    exact .inl ⟨stage, here, cont.reload reload⟩
  owes := by
    rintro _ found owed
    cases here.symm.trans found
    exact ⟨stage', there, cont.owes owed⟩
  pending := by
    rintro _ next found held
    cases here.symm.trans found
    obtain ⟨next', held'⟩ := Option.isSome_iff_exists.mp (cont.pending (by simp [held]))
    exact ⟨stage', next', there, held'⟩

theorem Inv.continues (inv : Inv st) (here : st.calls.lookup q = some stage)
    (cont : stage.Continues stage') (dry : Dry st st' q)
    (there : st'.calls.lookup q = some stage')
    (notifyMu : stage'.holdsNotify = true ↔ st'.notifyMu = some q)
    (mu : stage'.holdsMu = true ↔ st'.mu = some q) : Inv st' := by
  have fits := inv.fits q stage here
  refine inv.dry dry (cont.toUpholds.keeps here there) ?_ (by simp [there])
  rintro _ found
  cases there.symm.trans found
  refine ⟨notifyMu, mu, fun s held => dry.current (fits.snap s (cont.snap s held)),
    fun next held => ?_, fun t held => ?_⟩
  · rw [dry.topology]
    exact fits.pending next (cont.pending_eq next held)
  · rw [cont.loaded] at held
    cases held

theorem Inv.ends (inv : Inv st) (here : st.calls.lookup q = some stage) (idle : stage.Idle)
    (dry : Dry st st' q) (gone : st'.calls.lookup q = none)
    (free : st'.notifyMu ≠ some q ∧ st'.mu ≠ some q) : Inv st' := by
  refine inv.dry dry ⟨?_, ?_, ?_⟩ ?_ fun _ => free
  · rintro _ found
    rw [gone] at found
    cases found
  · rintro _ found owed
    cases here.symm.trans found
    rw [idle.owes] at owed
    cases owed
  · rintro _ next found held
    cases here.symm.trans found
    rw [idle.pending] at held
    cases held
  · rintro _ found
    rw [gone] at found
    cases found

/-! ## Locks -/

section
variable (inv : Inv st)
include inv

section
variable (here : st.calls.lookup q = some stage)
include here

/-- The call moves on and takes or gives back locks, as its new stage says. -/
theorem Inv.relock
    (cont : stage.Continues stage') {notifyMu mu : Option Nat}
    (notify : ∀ q' ≠ q, (notifyMu = some q' ↔ st.notifyMu = some q'))
    (table : ∀ q' ≠ q, (mu = some q' ↔ st.mu = some q'))
    (holdsNotify : stage'.holdsNotify = true ↔ notifyMu = some q)
    (holdsMu : stage'.holdsMu = true ↔ mu = some q) :
    Inv { st.become q stage' with notifyMu := notifyMu, mu := mu } := by
  refine inv.continues here cont ⟨inv.keyed, .rfl, rfl, rfl, rfl, rfl, rfl, notify, table, ?_⟩
    (by simp [State.become]) holdsNotify holdsMu
  intro q' differ
  simp [State.become, differ]

theorem Inv.lockNotify
    (taken : lockNotify st q stage' = some st') (cont : stage.Continues stage')
    (inside : stage'.holdsNotify = true) (same : stage'.holdsMu = stage.holdsMu) : Inv st' := by
  unfold Replan.lockNotify at taken
  split at taken <;> cases taken
  rename_i free
  refine inv.relock here cont ?_ (fun _ _ => .rfl) (by simp [inside]) ?_
  · intro q' differ
    simp [free, differ.symm]
  · rw [same]
    exact (inv.fits q stage here).mu

theorem Inv.lock
    (taken : lock st q stage' = some st') (cont : stage.Continues stage')
    (inside : stage'.holdsMu = true) (same : stage'.holdsNotify = stage.holdsNotify) : Inv st' := by
  unfold Replan.lock at taken
  split at taken <;> cases taken
  rename_i free
  refine inv.relock here cont (fun _ _ => .rfl) ?_ ?_ (by simp [inside])
  · intro q' differ
    simp [free, differ.symm]
  · rw [same]
    exact (inv.fits q stage here).notifyMu

theorem Inv.unlock
    (cont : stage.Continues stage') (held : stage.holdsMu = true)
    (outside : stage'.holdsMu = false) (same : stage'.holdsNotify = stage.holdsNotify) :
    Inv { st.become q stage' with mu := none } := by
  have fits := inv.fits q stage here
  refine inv.relock here cont (fun _ _ => .rfl) ?_ ?_ (by simp [outside])
  · intro q' differ
    simp [fits.mu.mp held, differ.symm]
  · rw [same]
    exact fits.notifyMu

theorem Inv.unlockNotify
    (cont : stage.Continues stage') (held : stage.holdsNotify = true)
    (outside : stage'.holdsNotify = false) (same : stage'.holdsMu = stage.holdsMu) :
    Inv { st.become q stage' with notifyMu := none } := by
  have fits := inv.fits q stage here
  refine inv.relock here cont ?_ (fun _ _ => .rfl) (by simp [outside]) ?_
  · intro q' differ
    simp [fits.notifyMu.mp held, differ.symm]
  · rw [same]
    exact fits.mu

end

end

@[simp] theorem State.lookup_become (st : State) (q q' : Nat) (stage : Stage) :
    (st.become q stage).calls.lookup q' = if q' = q then some stage else st.calls.lookup q' :=
  GoMap.lookup_insert_if _ _ _ _

@[simp] theorem State.lookup_finish (st : State) (q q' : Nat) :
    (st.finish q).calls.lookup q' = if q' = q then none else st.calls.lookup q' :=
  GoMap.lookup_erase_if _ _ _

/-! ## The steps that write or publish -/

theorem Inv.silent (inv : Inv st) {op : Op} (here : st.calls.lookup q = some (.writing op))
    (silent : (st.registry.apply op).2 = none) :
    Inv ({ st with registry := (st.registry.apply op).1 }.become q (.written none)) := by
  have fits := inv.fits q _ here
  have same : (st.registry.apply op).1.snapshotLocked.Perm st.registry.snapshotLocked :=
    GoMap.perm_values RegisteredAgent.info fun id => by
      rw [Registry.lookup_of_unpublished silent]
  have cont : Stage.Continues (.writing op) (.written none) := .of_eq rfl rfl rfl rfl rfl
  exact inv.continues here cont ⟨Registry.keyed_apply inv.keyed op, same, rfl, rfl, rfl, rfl, rfl,
    fun _ _ => .rfl, fun _ _ => .rfl, fun q' differ => by simp [differ]⟩ (by simp) fits.notifyMu
    fits.mu

/-- The holder of `notifyMu` is the only one who knows a snapshot or a loaded topology. -/
theorem Inv.not_holder (inv : Inv st) (here : st.calls.lookup q = some stage)
    (held : stage.holdsNotify = true) {q' : Nat} (differ : q' ≠ q) : st.notifyMu ≠ some q' := by
  rw [(inv.fits q stage here).notifyMu.mp held]
  intro same
  exact differ (Option.some.inj same).symm

theorem Inv.holders_of (inv : Inv st) {calls : GoMap Nat Stage} (there : calls.lookup q ≠ none)
    (others : ∀ q' ≠ q, calls.lookup q' = st.calls.lookup q') :
    ∀ p, calls.lookup p = none → st.notifyMu ≠ some p ∧ st.mu ≠ some p := by
  intro p absent
  have differ : p ≠ q := fun same => there (same ▸ absent)
  exact inv.holders p (others p differ ▸ absent)

variable {snap : Snapshot}

theorem Inv.published (inv : Inv st) {op : Op} (here : st.calls.lookup q = some (.writing op))
    (agents : snap.agents.Perm (st.registry.apply op).1.snapshotLocked)
    (mutation : snap.mutation = st.history.length) :
    Inv { { st with registry := (st.registry.apply op).1 }.become q (.written (some snap)) with
      history := st.history ++ [(st.registry.apply op).1.snapshotLocked] } := by
  have fits := inv.fits q _ here
  have upholds : Stage.Upholds (.writing op) (.written (some snap)) := by
    refine ⟨?_, ?_, ?_⟩ <;> simp [Stage.isReload, Stage.owes, Stage.pending]
  have others : ∀ q' ≠ q, ({ st with registry := (st.registry.apply op).1 }.become q
      (.written (some snap))).calls.lookup q' = st.calls.lookup q' :=
    fun q' differ => by simp [differ]
  refine ⟨Registry.keyed_apply inv.keyed op, fun p stage found => ?_,
    inv.holders_of (by simp) others, inv.one_of others (upholds.keeps here (by simp)).reload,
    ⟨_, List.getLast?_concat, .rfl⟩, fun _ => .inl ⟨q, .written (some snap), by simp, rfl⟩,
    inv.ordered, fun s listed => ?_⟩
  · by_cases same : p = q
    · obtain rfl : .written (some snap) = stage := by simpa [same] using found
      subst same
      refine ⟨fits.notifyMu, fits.mu, ?_, by simp [Stage.pending], by simp [Stage.loaded]⟩
      rintro s ⟨⟩
      exact ⟨agents, by simp [mutation]⟩
    · rw [others p same] at found
      have free := inv.not_holder here rfl same
      exact (inv.fits p stage found).other .rfl .rfl (fun held => absurd held free) (.inl rfl)
        fun held => absurd held free
  · obtain ⟨listing, found, perm⟩ := inv.reflects s listed
    have old := (List.getElem?_eq_some_iff.mp found).1
    exact ⟨listing, by simp [List.getElem?_append_left old, found], perm⟩

variable {next : TopologyConfig}

section
variable (inv : Inv st)
include inv

theorem Inv.store {ttl : NewTTL}
    (here : st.calls.lookup q = some (.storing next ttl)) :
    Inv { st.become q (.entering next ttl) with topology := next, reloads := st.reloads + 1 } := by
  have fits := inv.fits q _ here
  have upholds : Stage.Upholds (.storing next ttl) (.entering next ttl) := by
    refine ⟨?_, ?_, ?_⟩ <;> simp [Stage.isReload, Stage.owes, Stage.pending]
  have others : ∀ q' ≠ q, (st.become q (.entering next ttl)).calls.lookup q' =
      st.calls.lookup q' := fun q' differ => by simp [differ]
  refine ⟨inv.keyed, fun p stage found => ?_, inv.holders_of (by simp) others,
    inv.one_of others (upholds.keeps here (by simp)).reload, inv.last,
    fun _ => .inl ⟨q, .entering next ttl, by simp, rfl⟩, inv.ordered, inv.reflects⟩
  by_cases same : p = q
  · obtain rfl : .entering next ttl = stage := by simpa [same] using found
    subst same
    refine ⟨fits.notifyMu, fits.mu, by simp [Stage.snap], ?_, by simp [Stage.loaded]⟩
    rintro _ ⟨⟩
    rfl
  · rw [others p same] at found
    -- the storing reload is the only one, so nobody else waits with an older topology
    have none : stage.pending = none := by
      by_contra held
      obtain ⟨t, held⟩ := Option.ne_none_iff_exists'.mp held
      exact same (inv.one p q _ _ found here (Stage.isReload_of_pending held) rfl)
    have stored : State.Pending { st.become q (.entering next ttl) with
        topology := next, reloads := st.reloads + 1 } := ⟨q, .entering next ttl, next, by simp, rfl⟩
    exact (inv.fits p stage found).other .rfl .rfl (fun _ _ current => current)
      (.inr ⟨none, stored⟩) fun _ _ => stored

theorem Inv.setPlan {topology : TopologyConfig} {after : Option NewTTL}
    (here : st.calls.lookup q = some (.planning snap topology after)) {ord : RangeOrder}
    {plan : Option Plan} (built : build ord snap.agents topology = .ok plan) :
    Inv { st.become q (.scheduling snap after) with plan } := by
  have fits := inv.fits q _ here
  have current : Current st snap := fits.snap snap rfl
  have others : ∀ q' ≠ q, (st.become q (.scheduling snap after)).calls.lookup q' =
      st.calls.lookup q' := fun q' differ => by simp [differ]
  have installed : topology = st.topology →
      State.InForce { st.become q (.scheduling snap after) with plan } := by
    intro same ord'
    rw [← built, same]
    exact seen_build_of_perm ord' ord current.1.symm (distinct_of_keyed inv.keyed) _
  refine ⟨inv.keyed, fun p stage found => ?_, inv.holders_of (by simp) others, ?_, inv.last,
    fun _ => ?_, inv.ordered, inv.reflects⟩
  · by_cases same : p = q
    · obtain rfl : .scheduling snap after = stage := by simpa [same] using found
      subst same
      refine ⟨fits.notifyMu, fits.mu, ?_, by simp [Stage.pending], by simp [Stage.loaded]⟩
      rintro s ⟨⟩
      exact current
    · rw [others p same] at found
      have free := inv.not_holder here rfl same
      exact (inv.fits p stage found).other .rfl .rfl (fun _ _ current => current) (.inl rfl)
        fun held => absurd held free
  · refine inv.one_of others fun stage found reload => .inl ⟨_, here, ?_⟩
    obtain rfl : .scheduling snap after = stage := by simpa using found
    cases after with
    | none => cases reload
    | some ttl => rfl
  · cases after with
    | some ttl => exact .inr (installed (fits.pending topology rfl))
    | none =>
      rcases fits.loaded topology rfl with same | ⟨p, stage, next, found, held⟩
      · exact .inr (installed same)
      · -- the topology moved on meanwhile: the reload that stored it has its own plan to set
        have differ : p ≠ q := by
          rintro rfl
          cases here.symm.trans found
          cases held
        exact .inl ⟨p, stage, by rw [others p differ, found], Stage.owes_of_pending held⟩

theorem Inv.schedule {after : Option NewTTL}
    (here : st.calls.lookup q = some (.scheduling snap after)) :
    Inv { st.become q (.leaving after) with scheduled := st.scheduled ++ [snap] } := by
  have fits := inv.fits q _ here
  obtain ⟨agents, mutation⟩ := fits.snap snap rfl
  have cont : Stage.Continues (.scheduling snap after) (.leaving after) := by
    refine ⟨⟨?_, ?_, ?_⟩, ?_, ?_, rfl⟩
    · cases after <;> simp [Stage.isReload]
    all_goals simp [Stage.owes, Stage.pending, Stage.snap]
  -- apart from the new entry of `scheduled` the step is a dry one
  have moved : Inv (st.become q (.leaving after)) :=
    inv.continues here cont ⟨inv.keyed, .rfl, rfl, rfl, rfl, rfl, rfl, fun _ _ => .rfl,
      fun _ _ => .rfl, fun q' differ => by simp [differ]⟩ (by simp) fits.notifyMu fits.mu
  refine ⟨moved.keyed, fun p stage found => ?_, moved.holders, moved.one, moved.last, moved.fresh,
    ?_, ?_⟩
  · exact (moved.fits p stage found).other .rfl .rfl (fun _ _ current => current) (.inl rfl)
      fun _ pending => pending
  · change ((st.scheduled ++ [snap]).map Snapshot.mutation).Pairwise (· ≤ ·)
    rw [List.map_append, List.pairwise_append]
    refine ⟨inv.ordered, by simp, fun k earlier k' newest => ?_⟩
    obtain rfl : k' = snap.mutation := by simpa using newest
    obtain ⟨s, listed, rfl⟩ := List.mem_map.mp earlier
    obtain ⟨listing, found, -⟩ := inv.reflects s listed
    have := (List.getElem?_eq_some_iff.mp found).1
    omega
  · intro s listed
    rcases List.mem_append.mp listed with old | new
    · exact inv.reflects s old
    · obtain rfl := List.mem_singleton.mp new
      obtain ⟨listing, last, perm⟩ := inv.last
      refine ⟨listing, ?_, agents.trans perm.symm⟩
      rw [List.getLast?_eq_getElem?, ← mutation, Nat.add_sub_cancel] at last
      exact last

/-- A step that changes nothing but the stage of its call. -/
theorem Dry.become (q : Nat) (stage : Stage) : Dry st (st.become q stage) q :=
  ⟨inv.keyed, .rfl, rfl, rfl, rfl, rfl, rfl, fun _ _ => .rfl, fun _ _ => .rfl,
    fun q' differ => by simp [differ]⟩

theorem Inv.load (here : st.calls.lookup q = some (.loading snap)) :
    Inv (st.become q (.planning snap st.topology none)) := by
  have fits := inv.fits q _ here
  have upholds : Stage.Upholds (.loading snap) (.planning snap st.topology none) := by
    refine ⟨?_, ?_, ?_⟩ <;> simp [Stage.isReload, Stage.owes, Stage.pending]
  refine inv.dry (.become inv q _) (upholds.keeps here (by simp)) (fun stage found => ?_) (by simp)
  obtain rfl : .planning snap st.topology none = stage := by simpa using found
  refine ⟨fits.notifyMu, fits.mu, fits.snap, by simp [Stage.pending], ?_⟩
  rintro t ⟨⟩
  exact .inl rfl

theorem Inv.readSnapshot {ttl : NewTTL}
    (here : st.calls.lookup q = some (.reading next ttl)) (ord : RangeOrder) :
    Inv (st.become q (.read ⟨st.snapshot ord, st.history.length - 1⟩ next ttl)) := by
  have fits := inv.fits q _ here
  have upholds : Stage.Upholds (.reading next ttl)
      (.read ⟨st.snapshot ord, st.history.length - 1⟩ next ttl) := by
    refine ⟨?_, ?_, ?_⟩ <;> simp [Stage.isReload, Stage.owes, Stage.pending]
  refine inv.dry (.become inv q _) (upholds.keeps here (by simp)) (fun stage found => ?_) (by simp)
  obtain rfl : .read ⟨st.snapshot ord, st.history.length - 1⟩ next ttl = stage := by
    simpa using found
  refine ⟨fits.notifyMu, fits.mu, ?_, fits.pending, by simp [Stage.loaded]⟩
  rintro s ⟨⟩
  refine ⟨ord.perm 5 _, Nat.sub_add_cancel ?_⟩
  obtain ⟨listing, last, -⟩ := inv.last
  exact List.length_pos_of_mem (List.mem_of_getLast? last)

theorem Inv.compare {ttl : Int}
    (here : st.calls.lookup q = some (.applying next ttl)) (applied : Applied)
    (cont : Stage.Continues (.applying next ttl) stage') (outside : stage'.holdsNotify = false)
    (unlocked : stage'.holdsMu = false) : Inv ({ st with applied }.become q stage') := by
  have fits := inv.fits q _ here
  refine inv.continues here cont ⟨inv.keyed, .rfl, rfl, rfl, rfl, rfl, rfl, fun _ _ => .rfl,
    fun _ _ => .rfl, fun q' differ => by simp [differ]⟩ (by simp) ?_ ?_
  · rw [outside]
    exact fits.notifyMu
  · rw [unlocked]
    exact fits.mu

/-- A new call. -/
theorem Inv.begins (new : q ∉ st.calls) (outside : stage.holdsNotify = false)
    (unlocked : stage.holdsMu = false) (idle : stage.snap = none ∧ stage.pending = none ∧
      stage.loaded = none) (alone : stage.isReload = true → st.reloading = false) :
    Inv (st.become q stage) := by
  have absent : st.calls.lookup q = none := AList.lookup_eq_none.mpr new
  obtain ⟨notHolder, notWriter⟩ := inv.holders q absent
  have keeps : Keeps st (st.become q stage) q := by
    refine ⟨fun stage' found reload => .inr ?_, by simp [absent], by simp [absent]⟩
    obtain rfl : stage = stage' := by simpa using found
    intro p other listed
    by_contra also
    have seen : st.reloading = true := List.any_eq_true.mpr
      ⟨⟨p, other⟩, AList.mem_lookup_iff.mp listed, by simpa using also⟩
    rw [alone reload] at seen
    cases seen
  refine inv.dry (.become inv q stage) keeps (fun stage' found => ?_) (by simp)
  obtain rfl : stage = stage' := by simpa using found
  obtain ⟨noSnap, noPending, noLoaded⟩ := idle
  refine ⟨?_, ?_, by simp [noSnap], by simp [noPending], by simp [noLoaded]⟩
  · rw [outside]
    exact iff_of_false (by simp) notHolder
  · rw [unlocked]
    exact iff_of_false (by simp) notWriter

/-- The last step of a call. -/
theorem Inv.ended (here : st.calls.lookup q = some stage) (idle : stage.Idle)
    (registry : Registry) (agents : registry.agents = st.registry.agents)
    {notifyMu mu : Option Nat}
    (order : notifyMu = none ∧ stage.holdsNotify = true ∨
      notifyMu = st.notifyMu ∧ stage.holdsNotify = false)
    (writer : mu = none ∧ stage.holdsMu = true ∨ mu = st.mu ∧ stage.holdsMu = false) :
    Inv { st.finish q with registry, notifyMu, mu } := by
  have fits := inv.fits q _ here
  have keyed : registry.Keyed := by
    unfold Registry.Keyed
    rw [agents]
    exact inv.keyed
  have listing : registry.snapshotLocked = st.registry.snapshotLocked := by
    rw [Registry.snapshotLocked, agents, Registry.snapshotLocked]
  refine inv.ends here idle ⟨keyed, .of_eq listing, rfl, rfl, rfl, rfl, rfl, ?_, ?_,
    fun q' differ => by simp [differ]⟩ (by simp) ⟨?_, ?_⟩
  · intro q' differ
    rcases order with ⟨rfl, held⟩ | ⟨rfl, -⟩
    · simp [fits.notifyMu.mp held, differ.symm]
    · rfl
  · intro q' differ
    rcases writer with ⟨rfl, held⟩ | ⟨rfl, -⟩
    · simp [fits.mu.mp held, differ.symm]
    · rfl
  · rcases order with ⟨rfl, -⟩ | ⟨rfl, outside⟩
    · simp
    · exact fun held => by simp [fits.notifyMu.mpr held] at outside
  · rcases writer with ⟨rfl, -⟩ | ⟨rfl, outside⟩
    · simp
    · exact fun held => by simp [fits.mu.mpr held] at outside

end

end

theorem Inv.advance {st st' : State} {q : Nat} {stage : Stage} (inv : Inv st) (ord : RangeOrder)
    (here : st.calls.lookup q = some stage) (taken : advance ord q st stage = some st') :
    Inv st' := by
  cases stage with
  | called op => exact inv.lockNotify here taken (.of_eq rfl rfl rfl rfl rfl) rfl rfl
  | ordered op => exact inv.lock here taken (.of_eq rfl rfl rfl rfl rfl) rfl rfl
  | writing op =>
    cases taken
    unfold mutate
    dsimp only
    split
    · rename_i silent
      exact inv.silent here silent
    · exact inv.published here (ord.perm 5 _) rfl
  | written published =>
    cases published with
    | none =>
      cases taken
      exact inv.unlock here (.of_eq rfl rfl rfl rfl rfl) rfl rfl rfl
    | some snap =>
      cases taken
      exact inv.unlock here (.of_eq rfl rfl rfl rfl rfl) rfl rfl rfl
  | notifying snap => exact inv.lock here taken (.of_eq rfl rfl rfl rfl rfl) rfl rfl
  | copying snap =>
    cases taken
    exact inv.unlock here (.of_eq rfl rfl rfl rfl rfl) rfl rfl rfl
  | loading snap =>
    cases taken
    exact inv.load here
  | applying next ttl =>
    simp only [Replan.advance] at taken
    split at taken
    · cases taken
      exact inv.compare here _ (.of_eq rfl rfl rfl rfl rfl) rfl rfl
    · cases taken
      exact inv.compare here _ (.of_eq rfl rfl rfl rfl rfl) rfl rfl
  | storing next ttl =>
    cases taken
    exact inv.store here
  | entering next ttl => exact inv.lockNotify here taken (.of_eq rfl rfl rfl rfl rfl) rfl rfl
  | snapshotting next ttl => exact inv.lock here taken (.of_eq rfl rfl rfl rfl rfl) rfl rfl
  | reading next ttl =>
    cases taken
    exact inv.readSnapshot here ord
  | read snap next ttl =>
    cases taken
    exact inv.unlock here (.of_eq rfl rfl rfl rfl rfl) rfl rfl rfl
  | planning snap topology after =>
    simp only [Replan.advance] at taken
    split at taken <;> cases taken
    rename_i plan built
    exact inv.setPlan here built
  | scheduling snap after =>
    cases taken
    exact inv.schedule here
  | leaving after =>
    cases after with
    | none =>
      cases taken
      exact inv.ended here ⟨rfl, rfl⟩ _ rfl (.inl ⟨rfl, rfl⟩) (.inr ⟨rfl, rfl⟩)
    | some ttl =>
      cases taken
      exact inv.unlockNotify here (.of_eq rfl rfl rfl rfl rfl) rfl rfl rfl
  | settling ttl =>
    cases ttl with
    | none =>
      cases taken
      exact inv.ended here ⟨rfl, rfl⟩ _ rfl (.inr ⟨rfl, rfl⟩) (.inr ⟨rfl, rfl⟩)
    | some ttl => exact inv.lock here taken (.of_eq rfl rfl rfl rfl rfl) rfl rfl
  | settingTTL ttl =>
    cases taken
    exact inv.ended here ⟨rfl, rfl⟩ (st.registry.setTTL ttl) rfl (.inr ⟨rfl, rfl⟩) (.inl ⟨rfl, rfl⟩)

theorem Inv.step {st st' : State} (inv : Inv st) {a : Action} (taken : step st a = some st') :
    Inv st' := by
  cases a with
  | begin q op =>
    simp only [Replan.step] at taken
    split at taken <;> cases taken
    rename_i new
    exact inv.begins new rfl rfl ⟨rfl, rfl, rfl⟩ (by simp [Stage.isReload])
  | reload q next ttl =>
    simp only [Replan.step] at taken
    split at taken
    · cases taken
    · rename_i free
      obtain ⟨new, alone⟩ := not_or.mp free
      cases taken
      exact inv.begins new rfl rfl ⟨rfl, rfl, rfl⟩ fun _ => by simpa using alone
  | advance q ord =>
    obtain ⟨stage, here, taken⟩ := Option.bind_eq_some_iff.mp taken
    exact inv.advance ord here taken

theorem inv_initial {registry : Registry} (keyed : registry.Keyed) (applied : Applied)
    (plan : Option Plan) : Inv (initial registry applied plan) where
  keyed := keyed
  fits q stage found := by simp [initial] at found
  holders q _ := by simp [initial]
  one q q' stage stage' found := by simp [initial] at found
  last := ⟨registry.snapshotLocked, rfl, .rfl⟩
  fresh changed := by simp [initial, State.Changed] at changed
  ordered := .nil
  reflects s listed := by simp [initial] at listed

/-- In every run of mutations and topology reloads: the snapshots given to
`SchedulePeerBroadcast` are listings of the registry as the published mutations left it, in the
order of these mutations; and once a change was published or another topology stored, the plan is,
whenever no call is in progress, the one `build` makes of the registry's agents, in whatever
order they are listed, and the current topology. -/
theorem plan_in_force (registry : Registry) (keyed : registry.Keyed) (applied : Applied)
    (plan : Option Plan) (st : State)
    (run : Reaches step (fun _ _ => True) (initial registry applied plan) st) :
    ((st.scheduled.map Snapshot.mutation).Pairwise (· ≤ ·) ∧
      ∀ s ∈ st.scheduled, ∃ listing, st.history[s.mutation]? = some listing ∧
        s.agents.Perm listing) ∧ (st.calls.entries = [] → 1 < st.history.length ∨ 0 < st.reloads →
      ∀ ord agents, agents.Perm st.registry.snapshotLocked →
        Agree (build ord agents st.topology) (.ok st.plan)) := by
  have inv : Inv st := run.invariant (inv_initial keyed applied plan) fun _ _ _ inv _ => inv.step
  refine ⟨⟨inv.ordered, inv.reflects⟩, fun quiet changed ord agents perm => ?_⟩
  have inForce : st.InForce := by
    refine (inv.fresh changed).resolve_left ?_
    rintro ⟨q, stage, found, -⟩
    rw [GoMap.lookup_of_entries_nil quiet] at found
    cases found
  have distinct : (agents.map AgentInfo.id).Nodup :=
    (perm.map _).nodup_iff.mpr (distinct_of_keyed inv.keyed)
  exact agree_of_seen ((seen_build_of_perm ord ord perm distinct _).trans (inForce ord))

/-- A registration loads the old topology, and a reload stores a new one before the registration
sets its plan. -/
def overlap : List Action :=
  let advances (n q : Nat) : List Action := List.replicate n (.advance q .stored)
  [.begin 0 (.register none 0 { id := "a", nodeName := "n1", zone := "z1" })] ++ advances 7 0 ++
    [.reload 1 ⟨"sparse", 1, 0, 0⟩ 60] ++ advances 2 1 ++ advances 3 0 ++ advances 8 1

theorem plan_in_force_overlap : ∃ st,
    Reaches step (fun _ _ => True) (initial ⟨∅, 60⟩ ⟨⟨"full", 1, 0, 0⟩, 60⟩ none) st ∧
      st.calls.entries = [] ∧ 1 < st.history.length ∧ st.scheduled.length = 2 ∧
      ∀ ord, Agree (build ord st.registry.snapshotLocked st.topology) (.ok st.plan) := by
  let st := (exec (guarded step fun _ _ => True)
    (initial ⟨∅, 60⟩ ⟨⟨"full", 1, 0, 0⟩, 60⟩ none) overlap).get (by decide)
  have run : Reaches step (fun _ _ => True) (initial ⟨∅, 60⟩ ⟨⟨"full", 1, 0, 0⟩, 60⟩ none) st :=
    Reaches.of_exec (Option.some_get _).symm
  have keyed : Registry.Keyed ⟨∅, 60⟩ := fun id a found => by simp at found
  have quiet : st.calls.entries = [] := by decide
  have changed : 1 < st.history.length := by decide
  obtain ⟨-, inForce⟩ := plan_in_force _ keyed _ _ st run
  exact ⟨st, run, quiet, changed, by decide, fun ord => inForce quiet (.inl changed) ord _ .rfl⟩

end Kconmon.Controller.Replan
