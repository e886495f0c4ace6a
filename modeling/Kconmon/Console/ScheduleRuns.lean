import Kconmon.Console.CheckScheduler

/-!
# Schedules fire in order

What one attempt at a schedule does is said once, by `Tried` for the decision and by
`fireOne_of_listed` for the row. From it follow the invariant of every run of the scheduler,
`Orderly`, and with it that a one-shot schedule fires once, that an interval schedule moves on, and
that no run starts while another of its schedule is in flight.
-/
namespace Kconmon.Console.Scheduler
open Lib
open Import (ScheduleInput clampScheduleInterval minScheduleInterval)

variable {s t : State} {a : Answer} {replica : Nat} {now : Int} {id : String} {sched row : Schedule}

/-! ## Rows -/

theorem lt_column_add {ns : Int} (long : 1000 ≤ ns) : now < column (now + ns) := by
  unfold column
  omega

theorem nextFireAt_interval (kind : sched.kind = "interval") (positive : 0 < sched.intervalNs) :
    nextFireAt sched now = some (now + sched.intervalNs) := by
  simp [nextFireAt, kind, not_le.mpr positive]

/-- The attempt owes nothing more: a run was started, or only an edit can make one start. -/
def Outcome.settles : Outcome → Bool
  | .skipped => false
  | .started _ => true
  | .failed err => err.cannotRun

@[simp] theorem Outcome.record_toScheduleInput (o : Outcome) :
    (o.record id sched now row).toScheduleInput = row.toScheduleInput := by
  cases o with
  | skipped => rfl
  | started => rfl
  | failed err =>
    rw [Outcome.record]
    split <;> rfl

theorem Outcome.record_once (o : Outcome) (kind : sched.kind = "once") :
    (o.record id sched now row).nextFireAt = none ↔ o.settles := by
  cases o with
  | skipped => simp [Outcome.record, Outcome.settles, markSkipped, kind]
  | started => simp [Outcome.record, Outcome.settles, markFired, nextFireAt, kind]
  | failed err =>
    cases permanent : err.cannotRun <;>
      simp [Outcome.record, Outcome.settles, markFired, markSkipped, nextFireAt, kind, permanent]

/-- Whatever became of the attempt, an interval schedule is due again one interval later. -/
theorem Outcome.record_interval (o : Outcome) (kind : sched.kind = "interval")
    (positive : 0 < sched.intervalNs) :
    (o.record id sched now row).nextFireAt = some (column (now + sched.intervalNs)) := by
  have next : nextFireAt sched now = some (now + sched.intervalNs) :=
    nextFireAt_interval kind positive
  cases o <;> simp [Outcome.record, markFired, markSkipped, kind, next]

variable {req : ScheduleInput}

theorem runAt_of_wellTimed (timed : req.wellTimed) (kind : req.kind = "once") :
    req.runAt ≠ none := by
  rw [ScheduleInput.wellTimed, if_pos kind] at timed
  rintro missing
  simp [missing] at timed

theorem interval_of_wellTimed (timed : req.wellTimed) (kind : req.kind = "interval") :
    0 < req.intervalNs := by
  have other : req.kind ≠ "once" := by simp [kind]
  rw [ScheduleInput.wellTimed, if_neg other, if_pos kind] at timed
  simp only [Bool.and_eq_true, decide_eq_true_eq] at timed
  exact timed.2.1

theorem minScheduleInterval_le_clamp {ns : Int}
    (positive : 0 < clampScheduleInterval "interval" ns) :
    minScheduleInterval ≤ clampScheduleInterval "interval" ns := by
  unfold clampScheduleInterval at *
  split_ifs at * with short
  · exact le_rfl
  · by_contra less
    exact short ⟨rfl, positive, not_le.mp less⟩

/-- A new one-shot schedule is in the due index, and a new interval is not a short one. -/
theorem decodeScheduleRequest_spec (stored : decodeScheduleRequest req now = some row) :
    (row.kind = "once" → row.nextFireAt ≠ none) ∧
      (row.kind = "interval" → minScheduleInterval ≤ row.intervalNs) := by
  simp only [decodeScheduleRequest, Bool.not_eq_true'] at stored
  split_ifs at stored with untimed past
  have timed := Bool.eq_true_of_not_eq_false untimed
  cases stored
  constructor
  · intro kind
    have runAt := runAt_of_wellTimed timed kind
    simp only [seedNextFireAt] at kind runAt ⊢
    simpa [kind] using runAt
  · intro kind
    have positive := interval_of_wellTimed timed kind
    simp only at kind positive ⊢
    rw [kind] at positive ⊢
    exact minScheduleInterval_le_clamp positive

/-! ## One attempt -/

def Outcome.runs : Outcome → List Run
  | .started run => [run]
  | _ => []

theorem previousRunActive_frame (s : State) (replica : Nat) (a : Answer) (id : String) :
    ∃ lastRun, (s.previousRunActive replica a id).1 = { s with lastRun } := by
  unfold State.previousRunActive State.forget
  split_ifs <;> (try split) <;> (try split) <;> (try split_ifs) <;> exact ⟨_, rfl⟩

theorem previousRunActive_of_read (s : State) (replica : Nat) (id : String)
    (read : a.activeRead = true) :
    (s.previousRunActive replica a id).2 = s.activeForInitiator a.now id := by
  cases active : s.activeForInitiator a.now id <;> simp [State.previousRunActive, read, active]

/-- What `startFor` has done when it returns the outcome `o`. -/
structure Tried (s t : State) (a : Answer) (id : String) (o : Outcome) : Prop where
  schedules : t.schedules = s.schedules
  tick : t.tick = s.tick
  runs : t.runs = s.runs ++ o.runs
  effects : s.effects ⊆ t.effects
  refusal : ∀ err, o = .failed err → .failed id err ∈ t.effects
  fresh : ∀ run ∈ o.runs, run.initiatorID = id ∧ run.createdAt = a.createdAt ∧
    (a.activeRead = true → s.activeForInitiator a.now id = false)

theorem startFor_tried (s : State) (replica : Nat) (a : Answer) (id : String) (sched : Schedule) :
    Tried s (s.startFor replica a id sched).1 a id (s.startFor replica a id sched).2 := by
  obtain ⟨lastRun, frame⟩ := previousRunActive_frame s replica a id
  have asked := previousRunActive_of_read (a := a) s replica id
  unfold State.startFor
  cases definition : a.definition with
  | error text => constructor <;> simp [State.report, Outcome.runs]
  | ok enabled =>
    cases enabled with
    | false => constructor <;> simp [State.report, Outcome.runs]
    | true =>
      cases active : (s.previousRunActive replica a id).2 with
      | true => constructor <;> simp [State.report, Outcome.runs, frame, active]
      | false =>
        cases start : a.start with
        | failed err => constructor <;> simp [State.report, Outcome.runs, frame, active]
        | started run deadlineAt =>
          constructor <;> simp_all [State.startRun, Outcome.runs]

/-- A listed schedule whose row is still as listed: the row is marked by what came of it. -/
theorem fireOne_of_listed (replica : Nat) (now : Int) (marked : a.marked = true)
    (kind : sched.kind ≠ "continuous") (current : s.schedules.lookup id = some sched) :
    ∃ t o, Tried s t a id o ∧ s.fireOne replica now a id sched =
      { t with schedules := AList.insert id (o.record id sched now sched) s.schedules } := by
  have tried := startFor_tried s replica a id sched
  refine ⟨_, _, tried, ?_⟩
  simp only [State.fireOne, if_neg kind, State.mark, marked, if_true, tried.schedules, current]

/-! ## The invariant -/

def State.countRuns (s : State) (id : String) : Nat := s.runs.countP (·.initiatorID = id)

/-- An attempt at the schedule ended in a refusal that no retry clears. -/
def State.Refused (s : State) (id : String) : Prop :=
  ∃ err, .failed id err ∈ s.effects ∧ err.cannotRun = true

structure OnceLaw (s : State) (id : String) (row : Schedule) : Prop where
  atMostOne : s.countRuns id ≤ 1
  retired : s.countRuns id ≠ 0 → row.nextFireAt = none
  settled : row.nextFireAt = none → s.countRuns id ≠ 0 ∨ s.Refused id

/-- The rows of a list are in the store as listed, each once, and in the due index. -/
structure Listed (s : State) (due : List (String × Schedule)) : Prop where
  distinct : (due.map Prod.fst).Nodup
  current : ∀ d ∈ due, s.schedules.lookup d.1 = some d.2
  indexed : ∀ d ∈ due, d.2.nextFireAt ≠ none

structure Orderly (s : State) : Prop where
  once : ∀ id row, s.schedules.lookup id = some row → row.kind = "once" → OnceLaw s id row
  floor : ∀ id row, s.schedules.lookup id = some row → row.kind = "interval" →
    minScheduleInterval ≤ row.intervalNs
  owned : ∀ run ∈ s.runs, s.schedules.lookup run.initiatorID ≠ none
  listed : ∀ tick, s.tick = some tick → Listed s tick.due

theorem State.Refused.mono (refused : s.Refused id) (grown : s.effects ⊆ t.effects) :
    t.Refused id := by
  obtain ⟨err, failed, permanent⟩ := refused
  exact ⟨err, grown failed, permanent⟩

theorem OnceLaw.mono (law : OnceLaw s id row) (same : t.countRuns id = s.countRuns id)
    (grown : s.effects ⊆ t.effects) : OnceLaw t id row where
  atMostOne := same ▸ law.atMostOne
  retired := same ▸ law.retired
  settled gone := by
    rw [same]
    exact (law.settled gone).imp_right (·.mono grown)

theorem countRuns_eq_zero (orderly : Orderly s) (absent : s.schedules.lookup id = none) :
    s.countRuns id = 0 := by
  refine List.countP_eq_zero.mpr fun run started => ?_
  have owned := orderly.owned run started
  rintro same
  simp only [decide_eq_true_eq] at same
  exact owned (same ▸ absent)

theorem orderly_init : Orderly {} := by
  constructor <;> simp

variable {due : List (String × Schedule)}

theorem Listed.congr (listed : Listed s due) (schedules : t.schedules = s.schedules) :
    Listed t due := ⟨listed.distinct, schedules ▸ listed.current, listed.indexed⟩

/-- Only the list that is left may change, and the clocks. -/
theorem Orderly.frame (orderly : Orderly s) (schedules : t.schedules = s.schedules)
    (runs : t.runs = s.runs) (effects : t.effects = s.effects)
    (listed : ∀ tick, t.tick = some tick → Listed s tick.due) : Orderly t where
  once := fun id row held kind => by
    rw [schedules] at held
    exact (orderly.once id row held kind).mono (by rw [State.countRuns, runs, ← State.countRuns])
      (effects ▸ List.Subset.refl _)
  floor := schedules ▸ orderly.floor
  owned := by
    rw [runs, schedules]
    exact orderly.owned
  listed := fun tick ticking => (listed tick ticking).congr schedules

theorem Orderly.create (orderly : Orderly s) (absent : s.schedules.lookup id = none)
    (stored : decodeScheduleRequest req now = some row) :
    Orderly { s with schedules := AList.insert id row s.schedules } := by
  obtain ⟨indexed, floor⟩ := decodeScheduleRequest_spec stored
  have other {id' : String} {row' : Schedule} (held : s.schedules.lookup id' = some row') :
      id' ≠ id := by
    rintro rfl
    simp [absent] at held
  refine ⟨fun id' row' held kind => ?_, fun id' row' held kind => ?_, fun run started => ?_,
    fun tick ticking => ?_⟩
  · rcases GoMap.cases_insert held with ⟨rfl, rfl⟩ | ⟨-, held⟩
    · have none_yet : s.countRuns id' = 0 := countRuns_eq_zero orderly absent
      exact ⟨none_yet.trans_le zero_le_one, fun some_run => absurd none_yet some_run,
        fun gone => absurd gone (indexed kind)⟩
    · exact (orderly.once id' row' held kind).mono rfl (List.Subset.refl _)
  · rcases GoMap.cases_insert held with ⟨rfl, rfl⟩ | ⟨-, held⟩
    · exact floor kind
    · exact orderly.floor id' row' held kind
  · have owned := orderly.owned run started
    rw [GoMap.lookup_insert_if]
    split_ifs
    · simp
    · exact owned
  · have listed := orderly.listed tick ticking
    refine ⟨listed.distinct, fun d mem => ?_, listed.indexed⟩
    have held := listed.current d mem
    rw [GoMap.lookup_insert_if, if_neg (other held), held]

theorem listed_listDueSchedules (s : State) (now : Int) : Listed s (s.listDueSchedules now) := by
  have sub : (s.listDueSchedules now).Sublist _ := List.take_sublist dueLimit _
  have perm := List.perm_insertionSort
    (fun a b : String × Schedule => a.2.nextFireAt.getD 0 ≤ b.2.nextFireAt.getD 0)
    ((s.schedules.entries.map fun e => (e.1, e.2)).filter fun e => State.isDue now e.2)
  have keys : ((s.schedules.entries.map fun e => (e.1, e.2)).map Prod.fst).Nodup := by
    simpa [List.map_map, Function.comp_def, List.NodupKeys, List.keys] using s.schedules.nodupKeys
  have mem {d : String × Schedule} (due : d ∈ s.listDueSchedules now) :
      d ∈ s.schedules.entries.map (fun e => (e.1, e.2)) ∧ State.isDue now d.2 = true :=
    List.mem_filter.mp (perm.mem_iff.mp (sub.subset due))
  refine ⟨?_, fun d due => ?_, fun d due => ?_⟩
  · have distinct := (List.filter_sublist (p := fun e => State.isDue now e.2)).map Prod.fst
      |>.nodup keys
    exact (sub.map Prod.fst).nodup ((perm.map Prod.fst).nodup_iff.mpr distinct)
  · obtain ⟨e, entry, rfl⟩ := List.mem_map.mp (mem due).1
    exact AList.mem_lookup_iff.mpr entry
  · have isDue := (mem due).2
    intro missing
    simp [State.isDue, missing] at isDue

@[simp] theorem Run.moved_initiatorID (run : String) (status : Checks.RunStatus) (r : Run) :
    (r.moved run status).initiatorID = r.initiatorID := by
  unfold Run.moved
  split_ifs <;> rfl

theorem Orderly.status (orderly : Orderly s) (run : String) (status : Checks.RunStatus)
    (clock : Int) : Orderly { s with clock, runs := s.runs.map (Run.moved run status) } := by
  refine ⟨fun id row held kind => ?_, orderly.floor, fun r moved => ?_, fun tick ticking => ?_⟩
  · refine (orderly.once id row held kind).mono ?_ (List.Subset.refl _)
    simp [State.countRuns, List.countP_map, Function.comp_def]
  · obtain ⟨r, started, rfl⟩ := List.mem_map.mp moved
    intro absent
    exact orderly.owned r started (Run.moved_initiatorID run status r ▸ absent)
  · exact (orderly.listed tick ticking).congr rfl

variable {o : Outcome}

theorem Tried.countRuns (tried : Tried s t a id o) (id' : String) :
    t.countRuns id' = s.countRuns id' + if id' = id then o.runs.length else 0 := by
  rw [State.countRuns, tried.runs, List.countP_append, ← State.countRuns]
  congr 1
  split_ifs with same
  · refine List.countP_eq_length.mpr fun run started => ?_
    simpa [same] using (tried.fresh run started).1
  · refine List.countP_eq_zero.mpr fun run started => ?_
    simpa [(tried.fresh run started).1] using Ne.symm same

/-- The one-shot schedule that was tried had no run yet: it was in the due index. -/
theorem OnceLaw.tried (law : OnceLaw s id sched) (indexed : sched.nextFireAt ≠ none)
    (kind : sched.kind = "once") (tried : Tried s t a id o) :
    OnceLaw t id (o.record id sched now sched) := by
  have none_yet : s.countRuns id = 0 := by
    by_contra some_run
    exact indexed (law.retired some_run)
  have count : t.countRuns id = o.runs.length := by simp [tried.countRuns, none_yet]
  have gone : (o.record id sched now sched).nextFireAt = none ↔ o.settles := o.record_once kind
  refine ⟨?_, ?_, ?_⟩ <;> rw [count]
  · cases o <;> simp [Outcome.runs]
  · rw [gone]
    cases o <;> simp [Outcome.runs, Outcome.settles]
  · rw [gone]
    cases o with
    | skipped => simp [Outcome.settles]
    | started => simp [Outcome.runs]
    | failed err => exact fun permanent => .inr ⟨err, tried.refusal err rfl, permanent⟩

theorem Listed.rest (listed : Listed s ((id, sched) :: due)) :
    Listed s due ∧ ∀ d ∈ due, d.1 ≠ id := by
  have distinct : id ∉ due.map Prod.fst ∧ (due.map Prod.fst).Nodup := by
    simpa using listed.distinct
  refine ⟨⟨distinct.2, fun d mem => listed.current d (.tail _ mem),
    fun d mem => listed.indexed d (.tail _ mem)⟩, ?_⟩
  rintro d mem rfl
  exact distinct.1 (List.mem_map_of_mem mem)

/-- A list whose first row is written is still as listed in its rest. -/
theorem Listed.tail (listed : Listed s ((id, sched) :: due))
    (marked : t.schedules = AList.insert id row s.schedules) : Listed t due := by
  obtain ⟨rest, others⟩ := listed.rest
  refine ⟨rest.distinct, fun d mem => ?_, rest.indexed⟩
  rw [marked, GoMap.lookup_insert_if, if_neg (others d mem)]
  exact rest.current d mem

variable {tick : Tick}

theorem Orderly.tried (orderly : Orderly s) (listed : Listed s ((id, sched) :: due))
    (ticking : s.tick = some tick) (rest : tick.due = due) (tried : Tried s t a id o) :
    Orderly { t with schedules := AList.insert id (o.record id sched now sched) s.schedules } := by
  have current : s.schedules.lookup id = some sched := listed.current _ List.mem_cons_self
  have input : (o.record id sched now sched).toScheduleInput = sched.toScheduleInput :=
    o.record_toScheduleInput
  have kind_eq : (o.record id sched now sched).kind = sched.kind :=
    congrArg ScheduleInput.kind input
  refine ⟨fun id' row' held kind => ?_, fun id' row' held kind => ?_, fun run started => ?_,
    fun u ticking' => ?_⟩
  · rcases GoMap.cases_insert held with ⟨rfl, rfl⟩ | ⟨other, held⟩
    · rw [kind_eq] at kind
      have law := orderly.once id' sched current kind
      exact (law.tried (listed.indexed _ List.mem_cons_self) kind tried).mono rfl
        (List.Subset.refl _)
    · have same : t.countRuns id' = s.countRuns id' := by simp [tried.countRuns, other]
      exact (orderly.once id' row' held kind).mono same tried.effects
  · rcases GoMap.cases_insert held with ⟨rfl, rfl⟩ | ⟨-, held⟩
    · rw [congrArg ScheduleInput.intervalNs input]
      exact orderly.floor id' sched current (kind_eq ▸ kind)
    · exact orderly.floor id' row' held kind
  · rw [GoMap.lookup_insert_if]
    split_ifs with same
    · simp
    · have started : run ∈ s.runs ++ o.runs := tried.runs ▸ started
      rcases List.mem_append.mp started with before | new
      · exact orderly.owned run before
      · exact absurd (tried.fresh run new).1 same
  · have same : tick = u := by
      have ticking' : t.tick = some u := ticking'
      rw [tried.tick, ticking] at ticking'
      exact Option.some.inj ticking'
    subst same
    exact rest ▸ listed.tail rfl

/-- The holder of the lock comes to the first schedule of its list. -/
theorem Orderly.advance (orderly : Orderly s) (ticking : s.tick = some tick)
    (head : tick.due = (id, sched) :: due) (clock : Int) :
    Orderly { s with clock, tick := some { tick with due } } ∧
      Listed { s with clock, tick := some { tick with due } } ((id, sched) :: due) := by
  have listed := head ▸ orderly.listed tick ticking
  refine ⟨orderly.frame rfl rfl rfl fun u ticking' => ?_, listed.congr rfl⟩
  cases ticking'
  exact listed.rest.1

/-- The reads and the writes of an attempt succeed. -/
def Event.succeeds : Event → Bool
  | .fire a => a.activeRead && a.marked
  | _ => true

/-- What an attempt at the first schedule of the list does. -/
theorem step_fire (ticking : s.tick = some tick) (head : tick.due = (id, sched) :: due)
    (taken : step s (.fire a) = some t) : a.now ≤ a.createdAt ∧
      t = { s with clock := a.now, tick := some { tick with due } }.fireOne tick.replica tick.now a
        id sched := by
  simp only [step, ticking, head] at taken
  split_ifs at taken with early
  exact ⟨by omega, (Option.some.inj taken).symm⟩

/-- An attempt is made by the holder of the lock, at the first schedule of its list. -/
theorem ticking_of_fire (taken : step s (.fire a) = some t) :
    ∃ tick id sched due, s.tick = some tick ∧ tick.due = (id, sched) :: due := by
  cases ticking : s.tick with
  | none => simp [step, ticking] at taken
  | some tick =>
    cases head : tick.due with
    | nil => simp [step, ticking, head] at taken
    | cons d due => exact ⟨tick, d.1, d.2, due, rfl, head⟩

theorem Orderly.step {e : Event} (orderly : Orderly s) (succeeds : e.succeeds = true)
    (taken : Scheduler.step s e = some t) : Orderly t := by
  cases e with
  | create id req now =>
    simp only [Scheduler.step] at taken
    split_ifs at taken with known
    obtain ⟨row, stored, rfl⟩ := Option.map_eq_some_iff.mp taken
    exact orderly.create (by simpa using known) stored
  | begin replica now listed =>
    simp only [Scheduler.step] at taken
    split_ifs at taken with busy read <;> cases taken
    · refine orderly.frame rfl rfl rfl fun u ticking => ?_
      cases ticking
      exact listed_listDueSchedules s now
    · refine orderly.frame rfl rfl rfl fun u ticking => ?_
      cases ticking
      constructor <;> simp
  | fire a =>
    simp only [Event.succeeds, Bool.and_eq_true] at succeeds
    obtain ⟨tick, id, sched, due, ticking, head⟩ := ticking_of_fire taken
    obtain ⟨-, rfl⟩ := step_fire ticking head taken
    obtain ⟨advanced, listed⟩ := orderly.advance ticking head a.now
    by_cases kind : sched.kind = "continuous"
    · simpa [State.fireOne, kind] using advanced
    · have current := listed.current _ List.mem_cons_self
      obtain ⟨t, o, tried, fired⟩ := fireOne_of_listed tick.replica tick.now
        succeeds.2 kind current
      rw [fired]
      exact advanced.tried listed rfl rfl tried
  | release =>
    cases taken
    exact orderly.frame rfl rfl rfl (by simp)
  | status run status now =>
    simp only [Scheduler.step] at taken
    split_ifs at taken
    cases taken
    exact orderly.status run status now

/-! ## The order of the runs -/

/-- An interval schedule that was come to is due again only after this tick. -/
theorem interval_moves_on (orderly : Orderly s) (ticking : s.tick = some tick)
    (head : tick.due = (id, sched) :: due) (marked : a.marked = true)
    (taken : step s (.fire a) = some t) (kind : sched.kind = "interval") :
    ∃ next, (t.schedules.lookup id).bind (·.nextFireAt) = some next ∧ tick.now < next := by
  obtain ⟨-, rfl⟩ := step_fire ticking head taken
  obtain ⟨advanced, listed⟩ := orderly.advance ticking head a.now
  have current := listed.current _ List.mem_cons_self
  have floor : minScheduleInterval ≤ sched.intervalNs := advanced.floor id sched current kind
  have long : 1000 ≤ sched.intervalNs := le_trans (by decide) floor
  have other : sched.kind ≠ "continuous" := by simp [kind]
  obtain ⟨t, o, -, fired⟩ := fireOne_of_listed tick.replica tick.now marked other current
  refine ⟨column (tick.now + sched.intervalNs), ?_, lt_column_add long⟩
  have next : (o.record id sched tick.now sched).nextFireAt = _ := o.record_interval kind (by omega)
  simp [fired, next]

/-- The guard speaks of the instant at which the runs are counted, and a run that is past its
deadline then is past it when the new one is created. -/
theorem not_active_of_guard {run earlier : Run} {later : Int} (before : now ≤ later)
    (idle : s.activeForInitiator now id = false) (mem : earlier ∈ s.runs)
    (owner : run.initiatorID = id) (created : run.createdAt = later) :
    earlier.active run.initiatorID run.createdAt = false := by
  subst owner created
  have count : s.runs.countP (Run.active run.initiatorID now) = 0 := by
    simpa [State.activeForInitiator] using idle
  have inactive := List.countP_eq_zero.mp count earlier mem
  by_contra active
  refine inactive ?_
  simp only [Run.active, Bool.not_eq_false, Bool.and_eq_true] at active ⊢
  refine ⟨active.1, ?_⟩
  cases deadline : earlier.deadlineAt with
  | none => rfl
  | some d =>
    have open_ : run.createdAt < d := by simpa [deadline] using active.2
    simpa using lt_of_le_of_lt before open_

/-- The runs that a step adds are those of the attempt it makes. -/
theorem runs_after_step {e : Event} (taken : step s e = some t) (orderly : Orderly s)
    (succeeds : e.succeeds = true) {run : Run} (new : run ∈ t.runs.drop s.runs.length) :
    ∃ a, e = .fire a ∧ a.now ≤ a.createdAt ∧ run.createdAt = a.createdAt ∧
      s.activeForInitiator a.now run.initiatorID = false := by
  cases e with
  | create id req now =>
    simp only [step] at taken
    split_ifs at taken
    obtain ⟨row, -, rfl⟩ := Option.map_eq_some_iff.mp taken
    simp at new
  | begin replica now listed =>
    simp only [step] at taken
    split_ifs at taken <;> cases taken <;> simp at new
  | release =>
    cases taken
    simp at new
  | status id status now =>
    simp only [step] at taken
    split_ifs at taken
    cases taken
    have all : (s.runs.map (Run.moved id status)).drop s.runs.length = [] :=
      List.drop_of_length_le (by simp)
    simp [all] at new
  | fire a =>
    simp only [Event.succeeds, Bool.and_eq_true] at succeeds
    obtain ⟨tick, id, sched, due, ticking, head⟩ := ticking_of_fire taken
    obtain ⟨order, rfl⟩ := step_fire ticking head taken
    obtain ⟨-, listed⟩ := orderly.advance ticking head a.now
    refine ⟨a, rfl, order, ?_⟩
    by_cases kind : sched.kind = "continuous"
    · simp [State.fireOne, kind] at new
    · obtain ⟨t, o, tried, fired⟩ := fireOne_of_listed tick.replica tick.now
        succeeds.2 kind (listed.current _ List.mem_cons_self)
      have started : run ∈ o.runs := by simpa [fired, tried.runs] using new
      obtain ⟨owner, created, idle⟩ := tried.fresh run started
      exact ⟨created, owner ▸ idle succeeds.1⟩

/-- Over every run of the scheduler, whichever replicas take the lock: a one-shot schedule starts
at most one run, and leaves the due index only once that is started or an attempt was refused for
good; an interval schedule that was come to is due again after the tick; and a run is not created
while an earlier one of its schedule is pending or running and not past its deadline. -/
theorem schedules_fire_in_order (run : Reaches step (fun _ e => e.succeeds = true) {} s) :
    (∀ id row, s.schedules.lookup id = some row → row.kind = "once" →
      s.countRuns id ≤ 1 ∧ (row.nextFireAt = none → s.countRuns id ≠ 0 ∨ s.Refused id)) ∧
    ∀ e t, e.succeeds = true → step s e = some t →
      (∀ a tick id sched due, e = .fire a → s.tick = some tick → tick.due = (id, sched) :: due →
        sched.kind = "interval" →
        ∃ next, (t.schedules.lookup id).bind (·.nextFireAt) = some next ∧ tick.now < next) ∧
      ∀ new ∈ t.runs.drop s.runs.length, ∀ earlier ∈ s.runs,
        earlier.active new.initiatorID new.createdAt = false := by
  have orderly : Orderly s :=
    run.invariant orderly_init fun _ _ _ orderly succeeds taken => orderly.step succeeds taken
  refine ⟨fun id row held kind => ?_, fun e t succeeds taken => ⟨?_, ?_⟩⟩
  · have law := orderly.once id row held kind
    exact ⟨law.atMostOne, law.settled⟩
  · rintro a tick id sched due rfl ticking head kind
    simp only [Event.succeeds, Bool.and_eq_true] at succeeds
    exact interval_moves_on orderly ticking head succeeds.2 taken kind
  · intro new added earlier mem
    obtain ⟨a, -, order, created, idle⟩ := runs_after_step taken orderly succeeds added
    exact not_active_of_guard order idle mem rfl created

/-- Two replicas. The first finds the definition of the one-shot schedule disabled; the second finds
the run of the other schedule still in flight. -/
def twoReplicas : List Event :=
  let start (run : String) := Start.started run (some (90 * 1000000000))
  [.create "steady" { definitionID := "d", kind := "interval", intervalNs := 5, enabled := true } 0,
    .create "single" { definitionID := "d", kind := "once", runAt := some 1000, enabled := true } 0,
    .begin 0 2000 true, .fire { now := 10, createdAt := 20, start := start "first" },
    .fire { now := 30, createdAt := 30, definition := .ok false, start := start "unused" },
    .release, .status "first" .running 40, .begin 1 (70 * 1000000000) true,
    .fire { now := 70 * 1000000000, createdAt := 70 * 1000000000, start := start "unused" },
    .fire { now := 71 * 1000000000, createdAt := 72 * 1000000000, start := start "second" }]

theorem schedules_fire_in_order_twoReplicas :
    ∃ s, exec (guarded step fun _ e => e.succeeds = true) {} twoReplicas = some s ∧
      s.runs.map (fun r => (r.id, r.initiatorID)) = [("first", "steady"), ("second", "single")] ∧
      s.countRuns "single" ≤ 1 ∧ (s.schedules.lookup "single").map (·.nextFireAt) = some none := by
  have runs : (exec (guarded step fun _ e => e.succeeds = true) {} twoReplicas).isSome := by
    decide
  obtain ⟨s, ended⟩ := Option.isSome_iff_exists.mp runs
  have facts : (exec (guarded step fun _ e => e.succeeds = true) {} twoReplicas).map (fun s =>
      (s.runs.map (fun r => (r.id, r.initiatorID)),
        (s.schedules.lookup "single").map fun row => (row.kind, row.nextFireAt))) =
      some ([("first", "steady"), ("second", "single")], some ("once", none)) := by
    decide
  simp only [ended, Option.map_some, Option.some.injEq, Prod.mk.injEq] at facts
  obtain ⟨row, held, shape⟩ := Option.map_eq_some_iff.mp facts.2
  obtain ⟨kind, gone⟩ := Prod.mk.inj shape
  have law := (schedules_fire_in_order (.of_exec ended)).1 "single" row held kind
  exact ⟨s, ended, facts.1, law.1, by simp [held, gone]⟩

end Kconmon.Console.Scheduler
