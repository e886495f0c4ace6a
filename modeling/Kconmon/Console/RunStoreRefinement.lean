import Kconmon.Console.RunStores
import Kconmon.Lib.Lists
import Kconmon.Lib.Positions
import Kconmon.Lib.Runs
import Kconmon.Lib.Text

/-!
# Where the two run stores agree

Both stores take the same calls side by side. As long as every call meets the
condition below they answer alike and hold the same runs, results and snapshots.
The condition names what one of them does and the other does not: a deadline
that is kept, counters that are recomputed when a run is reaped, a last sighting
that never moves back, and keys that the database checks.
-/
namespace Kconmon.Console.RunStore
open Lib
open Checks (RunStatus storable runResultsCap)

/-! ## What is held in common -/

namespace SqlStore

theorem find_map (q : SqlStore) (change : RunRow → RunRow)
    (keeps : ∀ row, (change row).run.id = row.run.id) (id : String) :
    ({ q with runs := q.runs.map change } : SqlStore).find id = (q.find id).map change := by
  unfold find
  rw [List.find?_map]
  congr 2
  funext row
  simp [keeps]

theorem id_of_find {q : SqlStore} {id : String} {row : RunRow} (found : q.find id = some row) :
    row.run.id = id := by
  simpa using List.find?_some found

theorem find_of_mem {q : SqlStore} (distinct : (q.runs.map (·.run.id)).Nodup) {row : RunRow}
    (mem : row ∈ q.runs) : q.find row.run.id = some row := by
  have alone : q.runs.filter (fun other => other.run.id = row.run.id) = [row] :=
    filter_key_eq_singleton distinct mem
  rw [find, ← List.head?_filter, alone, List.head?_singleton]

end SqlStore

/-- No result was evicted, and the index finds each result where it is. -/
structure Entry.Sound (e : Entry) : Prop where
  whole : e.evicted = 0
  index : Indexes e.index (e.results.map RunResult.key)

structure Refines (m : MemoryStore) (q : SqlStore) (clock : Int) : Prop where
  order : m.order = q.runs.map (·.run.id)
  distinct : m.order.Nodup
  runs : ∀ id, (m.runs.lookup id).map Entry.run = (q.find id).map RunRow.run
  created : q.runs.Pairwise fun a b => a.run.createdAt < b.run.createdAt
  past : ∀ row ∈ q.runs, row.run.createdAt ≤ clock
  results : ∀ id e, m.runs.lookup id = some e → e.Sound ∧ e.results = q.resultsOf id
  owned : ∀ r ∈ q.results, (q.find r.runID).isSome
  snaps : ∀ key, m.snaps.lookup key = q.snaps.lookup key

section Statements

variable {m : MemoryStore} {q : SqlStore} {clock now : Int}

variable {id : String}

theorem Refines.find_eq_none (refines : Refines m q clock) (absent : m.runs.lookup id = none) :
    q.find id = none := by
  have same := refines.runs id
  rw [absent, Option.map_none, eq_comm, Option.map_eq_none_iff] at same
  exact same

variable {e : Entry}

theorem Refines.find_eq_some (refines : Refines m q clock) (there : m.runs.lookup id = some e) :
    ∃ row, q.find id = some row ∧ row.run = e.run := by
  have same := refines.runs id
  rw [there, Option.map_some, eq_comm, Option.map_eq_some_iff] at same
  exact same

variable {row : RunRow}

section
variable (refines : Refines m q clock)
include refines

theorem Refines.find_of_mem (mem : row ∈ q.runs) :
    q.find row.run.id = some row := SqlStore.find_of_mem (refines.order ▸ refines.distinct) mem

theorem Refines.lookup_of_mem (mem : row ∈ q.runs) :
    ∃ e, m.runs.lookup row.run.id = some e ∧ e.run = row.run := by
  have same := refines.runs row.run.id
  rw [refines.find_of_mem mem] at same
  exact Option.map_eq_some_iff.mp same

/-- Time passes. -/
theorem Refines.later (after : clock ≤ now) : Refines m q now :=
  { refines with past := fun row mem => (refines.past row mem).trans after }

theorem Refines.id_of_lookup (there : m.runs.lookup id = some e) : e.run.id = id := by
  obtain ⟨row, found, same⟩ := refines.find_eq_some there
  exact same ▸ SqlStore.id_of_find found

end

/-! ## Changing runs in place -/

/-- One change of runs, made on both sides, that leaves their ids and creation times alone. -/
theorem Refines.rewrite (refines : Refines m q clock) {m' : MemoryStore} (change : Run → Run)
    (keeps : ∀ run, (change run).id = run.id ∧ (change run).createdAt = run.createdAt)
    (order : m'.order = m.order) (snaps : m'.snaps = m.snaps)
    (runs : ∀ id, m'.runs.lookup id =
      (m.runs.lookup id).map fun e => { e with run := change e.run }) :
    Refines m' { q with runs := q.runs.map fun row => { row with run := change row.run } }
      clock := by
  have find := q.find_map (fun row => { row with run := change row.run })
    fun row => (keeps row.run).1
  exact {
    order := by
      rw [order, refines.order, List.map_map]
      exact List.map_congr_left fun row _ => (keeps row.run).1.symm
    distinct := order ▸ refines.distinct
    runs := by
      intro id
      have same := congrArg (Option.map change) (refines.runs id)
      rw [Option.map_map, Option.map_map] at same
      rw [runs, find, Option.map_map, Option.map_map]
      exact same
    created := by
      refine List.pairwise_map.mpr (refines.created.imp fun {a b} before => ?_)
      rw [(keeps a.run).2, (keeps b.run).2]
      exact before
    past := by
      intro row mem
      obtain ⟨before, held, rfl⟩ := List.mem_map.mp mem
      exact (keeps before.run).2.trans_le (refines.past before held)
    results := by
      intro id e found
      rw [runs] at found
      obtain ⟨before, held, rfl⟩ := Option.map_eq_some_iff.mp found
      obtain ⟨sound, same⟩ := refines.results id before held
      exact ⟨⟨sound.whole, sound.index⟩, same⟩
    owned := by
      intro r mem
      rw [find, Option.isSome_map]
      exact refines.owned r mem
    snaps := snaps ▸ refines.snaps }

theorem Refines.setRun (refines : Refines m q clock) (there : m.runs.lookup id = some e)
    {change : Run → Run}
    (keeps : ∀ run, (change run).id = run.id ∧ (change run).createdAt = run.createdAt) :
    Refines (m.setRun id e (change e.run)) (q.setRun id change) clock := by
  have rows : q.setRun id change = { q with runs := q.runs.map fun row =>
      { row with run := if row.run.id = id then change row.run else row.run } } := by
    unfold SqlStore.setRun
    congr 2
    funext row
    split_ifs <;> rfl
  rw [rows]
  refine refines.rewrite (fun run => if run.id = id then change run else run)
    (fun run => ?_) rfl rfl fun id' => ?_
  · split_ifs
    · exact keeps run
    · exact ⟨rfl, rfl⟩
  · change (AList.insert id { e with run := change e.run } m.runs).lookup id' = _
    rw [GoMap.lookup_insert_if]
    by_cases own : id' = id
    · subst own
      simp [there, refines.id_of_lookup there]
    · cases held : m.runs.lookup id' with
      | none => simp [own]
      | some e' => simp [own, refines.id_of_lookup held]

/-- The shape that starting, finishing and abandoning a run have in memory. -/
def MemoryStore.update (m : MemoryStore) (id : String) (guard : Run → Bool) (change : Run → Run)
    (unmatched : Reply) : MemoryStore × Reply :=
  match m.runs.lookup id with
  | none => (m, .failed .notFound)
  | some e => if guard e.run then (m.setRun id e (change e.run), .done) else (m, unmatched)

theorem Refines.update (refines : Refines m q clock) (id : String) (guard : Run → Bool)
    {change : Run → Run}
    (keeps : ∀ run, (change run).id = run.id ∧ (change run).createdAt = run.createdAt)
    (unmatched : Reply) :
    Refines (m.update id guard change unmatched).1 (q.update id guard change unmatched).1 clock ∧
      (m.update id guard change unmatched).2 = (q.update id guard change unmatched).2 := by
  unfold MemoryStore.update SqlStore.update
  cases there : m.runs.lookup id with
  | none =>
    rw [refines.find_eq_none there]
    exact ⟨refines, rfl⟩
  | some e =>
    obtain ⟨row, found, same⟩ := refines.find_eq_some there
    simp only [found, same]
    split_ifs
    · exact ⟨refines.setRun there keeps, rfl⟩
    · exact ⟨refines, rfl⟩

theorem markRunStarted_eq (m : MemoryStore) (now : Int) (id : String) :
    m.markRunStarted now id = m.update id (fun run => run.status = .pending)
      (fun run => { run with status := .running, startedAt := some now })
      (.failed .wrongState) := by
  unfold MemoryStore.markRunStarted MemoryStore.update
  cases m.runs.lookup id with
  | none => rfl
  | some e => by_cases status : e.run.status = .pending <;> simp [status]

theorem finishRun_eq (m : MemoryStore) (now : Int) (id : String) (status : RunStatus)
    (pairOK pairFailed : Int) :
    m.finishRun now id status pairOK pairFailed = m.update id (fun run => run.status = .running)
      (fun run => { run with status, finishedAt := some now, pairOK, pairFailed })
      (.failed .wrongState) := by
  unfold MemoryStore.finishRun MemoryStore.update
  cases m.runs.lookup id with
  | none => rfl
  | some e => by_cases running : e.run.status = .running <;> simp [running]

theorem abandonRun_eq (m : MemoryStore) (now : Int) (id : String) (status : RunStatus) :
    m.abandonRun now id status = m.update id Run.midFlight
      (fun run => { run with status, finishedAt := some now, pairOK := 0, pairFailed := 0 })
      .done := by
  unfold MemoryStore.abandonRun MemoryStore.update
  cases m.runs.lookup id with
  | none => rfl
  | some e => cases flying : e.run.midFlight <;> simp [flying]

/-! ## A new run -/

theorem not_evicts {α : Type*} {ring : List α} {size : Nat} (room : ring.length < size) (x : α) :
    ¬ (ring ++ [x]).length > size := by
  rw [List.length_append, List.length_singleton]
  omega

theorem SqlStore.find_append (q : SqlStore) (row : RunRow) (id : String) :
    ({ q with runs := q.runs ++ [row] } : SqlStore).find id =
      (q.find id).or (if row.run.id = id then some row else none) := by
  simp only [find, List.find?_append, List.find?_singleton, decide_eq_true_eq]

theorem Refines.append (refines : Refines m q clock) (after : clock < now)
    (fresh : m.runs.lookup row.run.id = none) (createdNow : row.run.createdAt = now) : Refines
      { m with
        order := m.order ++ [row.run.id]
        runs := AList.insert row.run.id { run := row.run } m.runs }
      { q with runs := q.runs ++ [row] } now where
  order := by
    change m.order ++ [row.run.id] = (q.runs ++ [row]).map _
    rw [refines.order, List.map_append]
    rfl
  distinct := by
    refine List.nodup_append.mpr ⟨refines.distinct, List.nodup_singleton _, ?_⟩
    intro id mem id' new same
    obtain rfl := List.mem_singleton.mp new
    rw [same, refines.order] at mem
    obtain ⟨old, held, taken⟩ := List.mem_map.mp mem
    obtain ⟨e, there, -⟩ := refines.lookup_of_mem held
    rw [taken, fresh] at there
    exact nomatch there
  runs := by
    intro id
    rw [SqlStore.find_append, GoMap.lookup_insert_if]
    by_cases own : id = row.run.id
    · subst own
      rw [if_pos rfl, if_pos rfl, refines.find_eq_none fresh]
      rfl
    · rw [if_neg own, if_neg (Ne.symm own), Option.or_none]
      exact refines.runs id
  created := by
    refine List.pairwise_append.mpr ⟨refines.created, List.pairwise_singleton _ _, ?_⟩
    intro old held row' new
    obtain rfl := List.mem_singleton.mp new
    exact ((refines.past old held).trans_lt after).trans_eq createdNow.symm
  past := by
    intro row' mem
    rcases List.mem_append.mp mem with held | new
    · exact (refines.past row' held).trans after.le
    · obtain rfl := List.mem_singleton.mp new
      exact createdNow.le
  results := by
    intro id e found
    rw [GoMap.lookup_insert_if] at found
    split_ifs at found with own
    · cases found
      refine ⟨⟨rfl, indexes_empty⟩, ?_⟩
      -- every result has a run, and this one was unknown
      have ownerless : q.results.filter (·.runID = id) = [] := by
        refine List.filter_eq_nil_iff.mpr fun r mem named => ?_
        have owner := refines.owned r mem
        rw [of_decide_eq_true named, own, refines.find_eq_none fresh] at owner
        exact nomatch owner
      exact (congrArg (List.map ResultRow.result) ownerless).symm
    · exact refines.results id e found
  owned := by
    intro r mem
    rw [SqlStore.find_append, Option.isSome_or, refines.owned r mem, Bool.true_or]
  snaps := refines.snaps

theorem Refines.createRun (refines : Refines m q clock) (after : clock < now)
    (room : (m.runs.lookup id).isSome ∨ m.order.length < memoryRingSize) (duration : Int)
    (initiatorKind initiatorID : String) (pairTotal deadlineAt : Int) :
    let inMemory := m.createRun now id duration initiatorKind initiatorID pairTotal
    let inSql := q.createRun now id duration initiatorKind initiatorID pairTotal deadlineAt
    Refines inMemory.1 inSql.1 now ∧ inMemory.2 = inSql.2 := by
  unfold MemoryStore.createRun SqlStore.createRun
  cases there : m.runs.lookup id with
  | some e =>
    obtain ⟨row, found, -⟩ := refines.find_eq_some there
    simp only [found, Option.isSome_some, if_true]
    exact ⟨refines.later after.le, trivial⟩
  | none =>
    have fits := not_evicts (room.resolve_left (by simp [there])) id
    simp only [refines.find_eq_none there, Option.isSome_none, Bool.false_eq_true, if_false,
      if_neg fits]
    let run : Run := { id, createdAt := now, duration, initiatorKind, initiatorID, pairTotal }
    let row : RunRow := ⟨run, if deadlineAt = 0 then none else some deadlineAt⟩
    have added : row.run.id = id := rfl
    exact ⟨refines.append after (added ▸ there) rfl, trivial⟩

/-! ## Results -/

/-- The results of a run after one more sample. -/
def upserted (row : RunResult) (rows : List RunResult) : List RunResult :=
  if row.key ∈ rows.map RunResult.key then rows.map fun r => if r.key = row.key then row else r
  else rows ++ [row]

variable {i : RunResultInput}

theorem upserted_of_mem {rows : List RunResult} (known : i.key ∈ rows.map RunResult.key) :
    upserted (i.row now) rows = rows.map fun r => if r.key = i.key then i.row now else r :=
  if_pos known

theorem upserted_of_notMem {rows : List RunResult} (unknown : i.key ∉ rows.map RunResult.key) :
    upserted (i.row now) rows = rows ++ [i.row now] := if_neg unknown

theorem Entry.Sound.upsert (sound : e.Sound) (now : Int)
    (room : (e.index.lookup i.key).isSome ∨ e.results.length < runResultsCap) :
    (e.upsert now i).Sound ∧ (e.upsert now i).run = e.run ∧
      (e.upsert now i).results = upserted (i.row now) e.results := by
  have known := sound.index.isSome_iff i.key
  unfold Entry.upsert
  cases found : e.index.lookup i.key with
  | some pos =>
    rw [found] at known
    have replaced := sound.index.modify_eq_map (x := i.row now) found
    simp only [sound.whole, Nat.sub_zero]
    rw [upserted_of_mem (known.mp rfl), replaced]
    exact ⟨⟨rfl, sound.index.replace (i.row now)⟩, trivial, rfl⟩
  | none =>
    rw [found] at known room
    have unknown : i.key ∉ e.results.map RunResult.key := fun mem => nomatch known.mpr mem
    have fits := not_evicts (room.resolve_left nofun) (i.row now)
    have added := sound.index.append unknown
    rw [List.length_map] at added
    simp only [if_neg fits, sound.whole, Nat.zero_add]
    rw [upserted_of_notMem unknown]
    refine ⟨⟨rfl, ?_⟩, trivial, rfl⟩
    rw [List.map_append]
    exact added

theorem SqlStore.any_same_iff (q : SqlStore) (i : RunResultInput) :
    (q.results.any fun r => r.runID = i.runID && r.result.key = i.key) ↔
      i.key ∈ (q.resultsOf i.runID).map RunResult.key := by
  simp only [List.any_eq_true, Bool.and_eq_true, decide_eq_true_eq, resultsOf, List.map_map,
    List.mem_map, List.mem_filter, Function.comp_apply, and_assoc]

theorem SqlStore.resultsOf_map (q : SqlStore) (change : ResultRow → ResultRow)
    (keeps : ∀ r, (change r).runID = r.runID) (id : String) :
    ({ q with results := q.results.map change } : SqlStore).resultsOf id =
      (q.results.filter (·.runID = id)).map fun r => (change r).result := by
  have own : (fun r : ResultRow => decide (r.runID = id)) ∘ change =
      fun r : ResultRow => decide (r.runID = id) := by
    funext r
    simp [keeps]
  simp only [resultsOf, List.filter_map, List.map_map, own]
  rfl

/-- An upsert changes the results of its own run only. -/
theorem SqlStore.upsertRunResult_spec (now : Int) {q : SqlStore} (there : (q.find i.runID).isSome) :
    ∃ results, q.upsertRunResult now i = ({ q with results }, .done) ∧
      (∀ r ∈ results, r ∈ q.results ∨ r.runID = i.runID) ∧
      ∀ id, ({ q with results } : SqlStore).resultsOf id =
        if id = i.runID then upserted (i.row now) (q.resultsOf id) else q.resultsOf id := by
  have known : ¬ (q.find i.runID).isNone := by simp [Option.isSome_iff_ne_none.mp there]
  let row : ResultRow := ⟨i.runID, i.row now⟩
  let same (r : ResultRow) : Bool := r.runID = i.runID && r.result.key = i.key
  by_cases hit : q.results.any same
  · refine ⟨q.results.map fun r => if same r then row else r, ?_, fun r mem => ?_, fun id => ?_⟩
    · unfold upsertRunResult
      rw [if_neg known]
      exact if_pos hit
    · obtain ⟨old, held, rfl⟩ := List.mem_map.mp mem
      split_ifs
      · exact .inr rfl
      · exact .inl held
    · rw [q.resultsOf_map _ fun r => by split_ifs with own <;> simp_all [same, row]]
      split_ifs with own
      · subst own
        rw [upserted_of_mem ((q.any_same_iff i).mp hit), resultsOf, List.map_map]
        refine List.map_congr_left fun r mem => ?_
        have mine : r.runID = i.runID := by simpa using (List.mem_filter.mp mem).2
        by_cases keyed : r.result.key = i.key <;> simp [same, row, mine, keyed]
      · refine List.map_congr_left fun r mem => ?_
        have theirs : r.runID = id := by simpa using (List.mem_filter.mp mem).2
        simp [same, theirs, own]
  · refine ⟨q.results ++ [row], ?_, fun r mem => ?_, fun id => ?_⟩
    · unfold upsertRunResult
      rw [if_neg known]
      exact if_neg hit
    · rcases List.mem_append.mp mem with held | new
      · exact .inl held
      · exact .inr (List.mem_singleton.mp new ▸ rfl)
    · split_ifs with own
      · subst own
        rw [upserted_of_notMem fun mem => hit ((q.any_same_iff i).mpr mem)]
        simp [resultsOf, row]
      · simp [resultsOf, row, Ne.symm own]

theorem Refines.upsertRunResult (refines : Refines m q clock) (there : (q.find i.runID).isSome)
    (room : ∀ e, m.runs.lookup i.runID = some e →
      (e.index.lookup i.key).isSome ∨ e.results.length < runResultsCap) :
    Refines (m.upsertRunResult now i).1 (q.upsertRunResult now i).1 clock ∧
      (m.upsertRunResult now i).2 = (q.upsertRunResult now i).2 := by
  obtain ⟨e, held⟩ : ∃ e, m.runs.lookup i.runID = some e := by
    obtain ⟨row, found⟩ := Option.isSome_iff_exists.mp there
    have same := refines.runs i.runID
    rw [found] at same
    exact (Option.map_eq_some_iff.mp same).imp fun e kept => kept.1
  obtain ⟨sound, same⟩ := refines.results i.runID e held
  obtain ⟨sound', run, results⟩ := sound.upsert now (room e held)
  obtain ⟨rows, written, mem_rows, resultsOf_rows⟩ := SqlStore.upsertRunResult_spec now there
  rw [MemoryStore.upsertRunResult, held, written]
  refine ⟨?_, rfl⟩
  exact { refines with
    runs := by
      intro id
      rw [GoMap.lookup_insert_if]
      refine Eq.trans ?_ (refines.runs id)
      split_ifs with own
      · rw [own, held, Option.map_some, Option.map_some, run]
      · rfl
    results := by
      intro id e' found
      rw [GoMap.lookup_insert_if] at found
      rw [resultsOf_rows]
      split_ifs at found ⊢ with own
      · cases found
        subst own
        exact ⟨sound', same ▸ results⟩
      · exact refines.results id e' found
    owned := by
      intro r mem
      rcases mem_rows r mem with old | new
      · exact refines.owned r old
      · exact new ▸ there }

/-! ## Path snapshots -/

/-- What both stores need of a trace that passed the checks. -/
def SnapshotFits (env : Env) (q : SqlStore) (i : PathSnapshotInput) : Prop :=
  match q.snaps.lookup i.key with
  | some snap => snap.lastSeen ≤ i.seenAt
  | none => i.runID = "" ∨ ((env.canonicalUUID i.runID).bind q.find).isSome

variable {env : Env}

theorem Refines.upsertPathSnapshot (refines : Refines m q clock) {i : PathSnapshotInput}
    (fits : ∀ i', i.validate env = some i' → SnapshotFits env q i')
    (room : ∀ i', i.validate env = some i' →
      (m.snaps.lookup i'.key).isSome ∨ m.snapOrder.length < memorySnapshotRingSize) :
    Refines (m.upsertPathSnapshot env i).1 (q.upsertPathSnapshot env i).1 clock ∧
      (m.upsertPathSnapshot env i).2 = (q.upsertPathSnapshot env i).2 := by
  unfold MemoryStore.upsertPathSnapshot SqlStore.upsertPathSnapshot
  cases valid : i.validate env with
  | none => exact ⟨refines, rfl⟩
  | some i' =>
    have fit := fits i' valid
    have space := room i' valid
    have stored (snap : PathSnapshot) (key : SnapshotKey) :
        (AList.insert i'.key snap m.snaps).lookup key =
          (AList.insert i'.key snap q.snaps).lookup key := by
      rw [GoMap.lookup_insert_if, GoMap.lookup_insert_if, refines.snaps]
    unfold SnapshotFits at fit
    rw [refines.snaps] at space
    simp only [refines.snaps]
    cases seen : q.snaps.lookup i'.key with
    | some snap =>
      simp only [seen] at fit
      simp only [max_eq_right fit]
      exact ⟨{ refines with snaps := stored _ }, trivial⟩
    | none =>
      simp only [seen] at fit
      have named : ¬ (i'.runID ≠ "" ∧ ((env.canonicalUUID i'.runID).bind q.find).isNone) := by
        rintro ⟨nonempty, missing⟩
        rcases fit with empty | found
        · exact nonempty empty
        · rw [Option.isNone_iff_eq_none] at missing
          rw [missing] at found
          exact nomatch found
      have within := not_evicts (space.resolve_left (by simp [seen])) i'.key
      simp only [if_neg named, if_neg within]
      exact ⟨{ refines with snaps := stored _ }, trivial⟩

/-! ## Reaping and counting -/

/-- What the loop does to a run that it cancels. -/
def cancelAt (now : Int) (run : Run) : Run :=
  { run with status := .cancelled, finishedAt := some now }

namespace MemoryStore

def isDue (m : MemoryStore) (now : Int) (budget : ReapBudget) (id : String) : Bool :=
  (m.runs.lookup id).any fun e => overdue now budget e.run

theorem isDue_setRun {m : MemoryStore} {id' : String} (other : id' ≠ id) (now : Int)
    (budget : ReapBudget) (e : Entry) (run : Run) :
    (m.setRun id e run).isDue now budget id' = m.isDue now budget id' := by
  rw [isDue, setRun, GoMap.lookup_insert_if, if_neg other, isDue]

theorem reapNext_idle {m : MemoryStore} {now : Int} {budget : ReapBudget} {limit n : Nat}
    (idle : limit ≤ n ∨ m.isDue now budget id = false) :
    reapNext now budget limit (m, n) id = (m, n) := by
  unfold reapNext
  rcases idle with full | early
  · exact if_pos (by exact_mod_cast full)
  · unfold isDue at early
    cases there : m.runs.lookup id with
    | none => simp
    | some e =>
      rw [there, Option.any_some] at early
      simp [early]

theorem reapNext_due {m : MemoryStore} {now : Int} {budget : ReapBudget} {limit n : Nat}
    (below : n < limit) (there : m.runs.lookup id = some e) (due : m.isDue now budget id) :
    reapNext now budget limit (m, n) id = (m.setRun id e (cancelAt now e.run), n + 1) := by
  have left : ¬ ((n : Int) ≥ (limit : Int)) := by omega
  rw [isDue, there, Option.any_some] at due
  simp only [reapNext, if_neg left, there, due, if_true]
  rfl

/-- The loop cancels the runs that are due in their order until the limit is reached. -/
theorem foldl_reapNext (now : Int) (budget : ReapBudget) (limit : Nat) :
    ∀ (ids : List String), ids.Nodup → ∀ (m : MemoryStore) (n : Nat),
      let picked := (ids.filter (m.isDue now budget)).take (limit - n)
      ∃ runs, ids.foldl (reapNext now budget limit) (m, n) = ({ m with runs }, n + picked.length) ∧
        ∀ id, runs.lookup id = (m.runs.lookup id).map fun e =>
          if id ∈ picked then { e with run := cancelAt now e.run } else e := by
  intro ids
  induction ids with
  | nil =>
    intro _ m n
    exact ⟨m.runs, by simp, fun id => by simp⟩
  | cons head ids ih =>
    intro distinct m n
    obtain ⟨unlisted, rest⟩ := List.nodup_cons.mp distinct
    rw [List.foldl_cons]
    by_cases idle : limit ≤ n ∨ m.isDue now budget head = false
    · have same : ((head :: ids).filter (m.isDue now budget)).take (limit - n) =
          (ids.filter (m.isDue now budget)).take (limit - n) := by
        rcases idle with full | early
        · rw [Nat.sub_eq_zero_of_le full, List.take_zero, List.take_zero]
        · rw [List.filter_cons_of_neg (by simp [early])]
      rw [reapNext_idle idle, same]
      exact ih rest m n
    · obtain ⟨below, due⟩ := not_or.mp idle
      rw [Bool.not_eq_false] at due
      obtain ⟨e, there, -⟩ := (Option.any_eq_true _ _).mp due
      have others : ids.filter ((m.setRun head e (cancelAt now e.run)).isDue now budget) =
          ids.filter (m.isDue now budget) :=
        List.filter_congr fun id mem =>
          isDue_setRun (ne_of_mem_of_not_mem mem unlisted) now budget e _
      have picked : ((head :: ids).filter (m.isDue now budget)).take (limit - n) =
          head :: (ids.filter (m.isDue now budget)).take (limit - (n + 1)) := by
        rw [List.filter_cons_of_pos due, show limit - n = limit - (n + 1) + 1 by omega,
          List.take_succ_cons]
      obtain ⟨runs, run, lookups⟩ := ih rest (m.setRun head e (cancelAt now e.run)) (n + 1)
      rw [others] at run lookups
      refine ⟨runs, ?_, fun id => ?_⟩
      · rw [reapNext_due (Nat.lt_of_not_le below) there due, run, picked, List.length_cons]
        exact congrArg _ (by omega)
      · rw [lookups, picked, setRun, GoMap.lookup_insert_if]
        by_cases own : id = head
        · subst own
          have unpicked : id ∉ (ids.filter (m.isDue now budget)).take (limit - (n + 1)) :=
            fun mem => unlisted (List.mem_of_mem_filter (List.mem_of_mem_take mem))
          simp [there, unpicked]
        · simp [own]

end MemoryStore

/-- The run's own deadline passes when its estimate does. A run without a deadline is not looked
at in the very microsecond in which its estimate ends. -/
def DueAlike (now : Int) (budget : ReapBudget) (row : RunRow) : Prop :=
  let estimate := row.run.createdAt + MemoryStore.reapAllowance row.run budget
  match row.deadlineAt with
  | some deadline => deadline + budget.slack < now ↔ estimate ≤ now
  | none => budget.perSourceConcurrency ≠ 0 ∧ now ≠ estimate

variable {budget : ReapBudget}

theorem DueAlike.overdue_eq (alike : DueAlike now budget row) :
    SqlStore.overdue now budget row = MemoryStore.overdue now budget row.run := by
  unfold SqlStore.overdue MemoryStore.overdue
  refine congrArg _ (Bool.eq_iff_iff.mpr ?_)
  cases dated : row.deadlineAt with
  | some deadline =>
    have same : deadline + budget.slack < now ↔
        row.run.createdAt + MemoryStore.reapAllowance row.run budget ≤ now := by
      simpa only [DueAlike, dated] using alike
    simp only [decide_eq_true_eq, not_lt, ← same]
    omega
  | none =>
    have apart : budget.perSourceConcurrency ≠ 0 ∧
        now ≠ row.run.createdAt + MemoryStore.reapAllowance row.run budget := by
      simpa only [DueAlike, dated] using alike
    have slots : max budget.perSourceConcurrency 1 = budget.perSourceConcurrency := by omega
    unfold MemoryStore.reapAllowance at apart ⊢
    rw [slots] at apart ⊢
    simp only [decide_eq_true_eq, not_lt]
    omega

/-- What both stores need of the runs that are reaped: that their counters are the tally of
their results already. -/
def ReapFits (q : SqlStore) (now : Int) (budget : ReapBudget) (limit : Int) : Prop :=
  0 ≤ limit ∧ ∀ row ∈ q.runs, row.run.midFlight → DueAlike now budget row ∧
    (SqlStore.overdue now budget row →
      SqlStore.pairTally (q.resultsOf row.run.id) = (row.run.pairOK, row.run.pairFailed))

theorem SqlStore.doomed_eq {q : SqlStore}
    (created : q.runs.Pairwise fun a b => a.run.createdAt < b.run.createdAt) (now : Int)
    (budget : ReapBudget) (limit : Int) : q.doomed now budget limit =
      ((q.runs.filter (overdue now budget)).map (·.run.id)).take limit.toNat := by
  have sorted : (q.runs.filter (overdue now budget)).Pairwise
      fun a b => a.run.createdAt ≤ b.run.createdAt := (created.filter _).imp fun before => before.le
  rw [doomed, sorted.insertionSort_eq, List.map_take]

variable {limit : Int}

theorem Refines.due_eq (refines : Refines m q clock) (fits : ReapFits q now budget limit) :
    m.order.filter (m.isDue now budget) =
      (q.runs.filter (SqlStore.overdue now budget)).map (·.run.id) := by
  rw [refines.order, List.filter_map]
  refine congrArg _ (List.filter_congr fun row mem => ?_)
  obtain ⟨e, there, same⟩ := refines.lookup_of_mem mem
  rw [Function.comp_apply, MemoryStore.isDue, there, Option.any_some, same]
  cases flying : row.run.midFlight with
  | true => exact (fits.2 row mem flying).1.overdue_eq.symm
  | false => simp only [MemoryStore.overdue, SqlStore.overdue, flying, Bool.false_and]

theorem ReapFits.answers (fits : ReapFits q now budget limit) :
    ¬ (limit < 0 ∨ budget.perSourceConcurrency = 0 ∧
      ∃ row ∈ q.runs, row.run.midFlight ∧ row.deadlineAt = none) := by
  rintro (negative | ⟨slots, row, mem, flying, undated⟩)
  · exact absurd fits.1 (by omega)
  · have alike := (fits.2 row mem flying).1
    simp only [DueAlike, undated] at alike
    exact alike.1 slots

theorem Refines.tally_of_doomed (refines : Refines m q clock) (fits : ReapFits q now budget limit)
    (mem : row ∈ q.runs) (doomed : row.run.id ∈ q.doomed now budget limit) :
    SqlStore.pairTally (q.resultsOf row.run.id) = (row.run.pairOK, row.run.pairFailed) := by
  rw [SqlStore.doomed_eq refines.created] at doomed
  obtain ⟨picked, listed, same⟩ := List.mem_map.mp (List.mem_of_mem_take doomed)
  obtain ⟨held, late⟩ := List.mem_filter.mp listed
  have own : some picked = some row := by
    rw [← refines.find_of_mem held, ← refines.find_of_mem mem, same]
  obtain rfl := Option.some.inj own
  exact (fits.2 picked held (Bool.and_eq_true_iff.mp late).1).2 late

theorem Refines.reapStuckRuns (refines : Refines m q clock) (fits : ReapFits q now budget limit) :
    Refines (m.reapStuckRuns now budget limit).1 (q.reapStuckRuns now budget limit).1 clock ∧
      (m.reapStuckRuns now budget limit).2 = (q.reapStuckRuns now budget limit).2 := by
  obtain ⟨runs, reaped, lookups⟩ := MemoryStore.foldl_reapNext now budget limit.toNat m.order
    refines.distinct m 0
  have ids : (m.order.filter (m.isDue now budget)).take (limit.toNat - 0) =
      q.doomed now budget limit := by
    rw [SqlStore.doomed_eq refines.created, refines.due_eq fits, Nat.sub_zero]
  rw [ids, Int.toNat_of_nonneg fits.1, Nat.zero_add] at reaped
  rw [ids] at lookups
  unfold MemoryStore.reapStuckRuns SqlStore.reapStuckRuns
  rw [if_neg fits.answers, reaped]
  refine ⟨?_, rfl⟩
  let cancel (run : Run) : Run :=
    let tally := SqlStore.pairTally (q.resultsOf run.id)
    { cancelAt now run with pairOK := tally.1, pairFailed := tally.2 }
  let change (run : Run) : Run := if run.id ∈ q.doomed now budget limit then cancel run else run
  let touch (row : RunRow) : RunRow :=
    if row.run.id ∈ q.doomed now budget limit then { row with run := cancel row.run } else row
  have rows : touch = fun row => { row with run := change row.run } := by
    funext row
    unfold touch change
    split_ifs <;> rfl
  change Refines { m with runs } { q with runs := q.runs.map touch } clock
  rw [rows]
  refine refines.rewrite change (fun run => ?_) rfl rfl fun id => ?_
  · unfold change
    split_ifs <;> exact ⟨rfl, rfl⟩
  · change runs.lookup id = _
    rw [lookups]
    cases there : m.runs.lookup id with
    | none => rfl
    | some e =>
      obtain ⟨row, found, same⟩ := refines.find_eq_some there
      have named := SqlStore.id_of_find found
      have kept (doomed : id ∈ q.doomed now budget limit) : cancel e.run = cancelAt now e.run := by
        have counters := refines.tally_of_doomed fits (List.mem_of_find?_eq_some found)
          (named ▸ doomed)
        rw [same] at counters
        simp only [cancel, counters, cancelAt]
      unfold change
      rw [Option.map_some, Option.map_some, refines.id_of_lookup there]
      split_ifs with doomed
      · rw [kept doomed]
      · rfl

/-- The runs of this initiator that are mid-flight have no deadline in the past. -/
def CountFits (q : SqlStore) (now : Int) (kind initiator : String) : Prop :=
  ∀ row ∈ q.runs, row.run.startedBy kind initiator → row.run.midFlight →
    row.deadlineAt.all (now < ·)

theorem Refines.activeRunsByInitiator (refines : Refines m q clock) {kind initiator : String}
    (fits : CountFits q now kind initiator) :
    m.activeRunsByInitiator kind initiator = q.activeRunsByInitiator now kind initiator := by
  unfold MemoryStore.activeRunsByInitiator SqlStore.activeRunsByInitiator
  rw [refines.order, List.countP_map]
  refine congrArg Reply.count (List.countP_congr fun row mem => ?_)
  obtain ⟨e, there, same⟩ := refines.lookup_of_mem mem
  rw [Function.comp_apply, there, Option.any_some, same, Bool.and_eq_true, Bool.and_eq_true,
    Bool.and_eq_true]
  constructor
  · rintro ⟨started, flying⟩
    exact ⟨⟨started, flying⟩, fits row mem started flying⟩
  · rintro ⟨active, -⟩
    exact active

/-! ## Any call -/

/-- Nothing has to be evicted for this call. -/
def Room (env : Env) (m : MemoryStore) : Call → Prop
  | .createRun id .. => (m.runs.lookup id).isSome ∨ m.order.length < memoryRingSize
  | .upsertRunResult i => ∀ e ∈ m.runs.lookup i.runID,
    (e.index.lookup i.key).isSome ∨ e.results.length < runResultsCap
  | .upsertPathSnapshot i => ∀ i' ∈ i.validate env,
    (m.snaps.lookup i'.key).isSome ∨ m.snapOrder.length < memorySnapshotRingSize
  | _ => True

/-- The texts of this call can be stored, its ids are canonical, and the database has no
deadline, tally, sighting or foreign key that memory would not have. -/
def Fits (env : Env) (q : SqlStore) (now : Int) (c : Call) : Prop :=
  (SqlStore.texts c).all storable ∧ match c with
  | .createRun id .. | .markRunStarted id | .finishRun id .. | .abandonRun id _ =>
    env.canonicalUUID id = some id
  | .upsertRunResult i => env.canonicalUUID i.runID = some i.runID ∧ (q.find i.runID).isSome
  | .upsertPathSnapshot i => ∀ i' ∈ i.validate env, SnapshotFits env q i'
  | .reapStuckRuns budget limit => ReapFits q now budget limit
  | .activeRunsByInitiator kind initiator => CountFits q now kind initiator

theorem SqlStore.withID_of_canonical (canonical : env.canonicalUUID id = some id) (q : SqlStore)
    (statement : String → SqlStore × Reply) : q.withID env id statement = statement id := by
  rw [withID, canonical]

theorem Refines.call (refines : Refines m q clock) {c : Call} (after : clock < now)
    (room : Room env m c) (fits : Fits env q now c) :
    Refines (m.call env now c).1 (q.call env now c).1 now ∧
      (m.call env now c).2 = (q.call env now c).2 := by
  obtain ⟨texts, fits⟩ := fits
  have accepted : ¬ (SqlStore.texts c).all storable = false := by simp [texts]
  have later := refines.later after.le
  unfold SqlStore.call
  rw [if_neg accepted]
  cases c with
  | createRun id duration kind initiator pairTotal deadlineAt =>
    simp only [SqlStore.withID_of_canonical fits]
    exact refines.createRun after room duration kind initiator pairTotal deadlineAt
  | markRunStarted id =>
    simp only [SqlStore.withID_of_canonical fits, MemoryStore.call, markRunStarted_eq]
    refine later.update id _ ?_ _
    exact fun _ => ⟨rfl, rfl⟩
  | finishRun id status pairOK pairFailed =>
    simp only [SqlStore.withID_of_canonical fits, MemoryStore.call, finishRun_eq]
    refine later.update id _ ?_ _
    exact fun _ => ⟨rfl, rfl⟩
  | abandonRun id status =>
    simp only [SqlStore.withID_of_canonical fits, MemoryStore.call, abandonRun_eq]
    refine later.update id _ ?_ _
    exact fun _ => ⟨rfl, rfl⟩
  | upsertRunResult i =>
    simp only [SqlStore.withID_of_canonical fits.1]
    exact later.upsertRunResult fits.2 room
  | upsertPathSnapshot i => exact later.upsertPathSnapshot fits room
  | reapStuckRuns budget limit => exact later.reapStuckRuns fits
  | activeRunsByInitiator kind initiator => exact ⟨later, later.activeRunsByInitiator fits⟩

end Statements

/-! ## Side by side -/

/-- What a reader of a run compares: its status and its counters. -/
def MemoryStore.runView (m : MemoryStore) (id : String) : Option (RunStatus × Int × Int) :=
  (m.runs.lookup id).map fun e => (e.run.status, e.run.pairOK, e.run.pairFailed)

def SqlStore.runView (q : SqlStore) (id : String) : Option (RunStatus × Int × Int) :=
  (q.find id).map fun row => (row.run.status, row.run.pairOK, row.run.pairFailed)

/-- What a reader of a path compares: its first and last sighting and the number of traces. -/
def PathSnapshot.view (snap : PathSnapshot) : Int × Int × Nat :=
  (snap.firstSeen, snap.lastSeen, snap.traceCount)

theorem Refines.runView_eq {m : MemoryStore} {q : SqlStore} {clock : Int}
    (refines : Refines m q clock) (id : String) : m.runView id = q.runView id := by
  have same := congrArg (Option.map fun run => (run.status, run.pairOK, run.pairFailed))
    (refines.runs id)
  rwa [Option.map_map, Option.map_map] at same

/-- Two stores that took the same calls, the time of the last one and both answers to it. -/
structure Both where
  memory : MemoryStore := {}
  sql : SqlStore := {}
  clock : Int := 0
  replies : Option (Reply × Reply) := none

/-- One call, made at one time to both stores. -/
def Both.step (env : Env) (s : Both) (c : Int × Call) : Option Both :=
  let inMemory := s.memory.call env c.1 c.2
  let inSql := s.sql.call env c.1 c.2
  some ⟨inMemory.1, inSql.1, c.1, some (inMemory.2, inSql.2)⟩

/-- The clock has advanced and nothing is evicted. -/
def Within (env : Env) (s : Both) (c : Int × Call) : Prop := s.clock < c.1 ∧ Room env s.memory c.2

def Meets (env : Env) (s : Both) (c : Int × Call) : Prop := Within env s c ∧ Fits env s.sql c.1 c.2

instance (env : Env) (m : MemoryStore) (c : Call) : Decidable (Room env m c) := by
  cases c <;> unfold Room <;> infer_instance

instance (env : Env) (q : SqlStore) (i : PathSnapshotInput) : Decidable (SnapshotFits env q i) := by
  unfold SnapshotFits
  cases q.snaps.lookup i.key <;> infer_instance

instance (now : Int) (budget : ReapBudget) (row : RunRow) :
    Decidable (DueAlike now budget row) := by
  unfold DueAlike
  cases row.deadlineAt <;> infer_instance

instance (env : Env) (q : SqlStore) (now : Int) (c : Call) : Decidable (Fits env q now c) := by
  cases c <;> unfold Fits <;> unfold ReapFits CountFits <;> infer_instance

instance (env : Env) (s : Both) (c : Int × Call) : Decidable (Within env s c) :=
  inferInstanceAs (Decidable (_ ∧ _))

instance (env : Env) (s : Both) (c : Int × Call) : Decidable (Meets env s c) :=
  inferInstanceAs (Decidable (_ ∧ _))

theorem refines_empty : Refines {} {} 0 where
  order := rfl
  distinct := List.nodup_nil
  runs := fun _ => rfl
  created := List.Pairwise.nil
  past := fun _ mem => absurd mem List.not_mem_nil
  results := by
    intro id e held
    change (∅ : GoMap String Entry).lookup id = some e at held
    rw [AList.lookup_empty] at held
    exact nomatch held
  owned := fun _ mem => absurd mem List.not_mem_nil
  snaps := fun _ => rfl

theorem step_refines {env : Env} {s t : Both} {c : Int × Call}
    (refines : Refines s.memory s.sql s.clock) (meets : Meets env s c)
    (taken : s.step env c = some t) :
    Refines t.memory t.sql t.clock ∧ ∀ r ∈ t.replies, r.1 = r.2 := by
  obtain ⟨kept, answered⟩ := refines.call meets.1.1 meets.1.2 meets.2
  cases taken
  refine ⟨kept, fun r given => ?_⟩
  cases given
  exact answered

/-- However the calls are mixed, as long as each of them meets the condition both stores give
the same answers and hold the same runs and snapshots. -/
theorem stores_agree (env : Env) {s : Both} (run : Reaches (Both.step env) (Meets env) {} s) :
    (∀ r ∈ s.replies, r.1 = r.2) ∧ (∀ id, s.memory.runView id = s.sql.runView id) ∧
      ∀ key, (s.memory.snaps.lookup key).map PathSnapshot.view =
        (s.sql.snaps.lookup key).map PathSnapshot.view := by
  have inv : Refines s.memory s.sql s.clock ∧ ∀ r ∈ s.replies, r.1 = r.2 :=
    run.invariant ⟨refines_empty, nofun⟩ fun _ _ _ held meets taken =>
      step_refines held.1 meets taken
  exact ⟨inv.2, inv.1.runView_eq, fun key => congrArg _ (inv.1.snaps key)⟩

/-- Every path has the same hash. -/
def plainEnv : Env :=
  ⟨fun _ => "path", "silent", fun id => if isUUID id.toList then some id else none⟩

def firstID : String := "00000000-0000-4000-8000-000000000001"
def secondID : String := "00000000-0000-4000-8000-000000000002"

def plainBudget : ReapBudget := ⟨1, 10, 5⟩

def plainTrace (seenAt : Int) : PathSnapshotInput :=
  { sourceNode := "a", destination := "b", hops := [⟨1, "10.0.0.1"⟩], seenAt }

def plainResult (runID : String) : RunResultInput :=
  { runID, sourceNode := "a", destinationNode := "b", success := true }

/-- One run that finishes, one that is reaped before it started, and a path seen twice. -/
theorem stores_agree_twoRuns :
    let s := (exec (guarded (Both.step plainEnv) (Meets plainEnv)) {}
      [(1, .createRun firstID 0 "user" "u" 1 100), (2, .createRun secondID 0 "user" "u" 1 0),
        (3, .markRunStarted firstID), (4, .upsertRunResult (plainResult firstID)),
        (5, .activeRunsByInitiator "user" "u"), (6, .upsertPathSnapshot (plainTrace 4)),
        (7, .upsertPathSnapshot (plainTrace 6)), (8, .finishRun firstID .succeeded 1 0),
        (40, .reapStuckRuns plainBudget 10)]).get (by decide)
    s.replies = some (.count 1, .count 1) ∧ (∀ id, s.memory.runView id = s.sql.runView id) ∧
      s.sql.runView firstID = some (.succeeded, 1, 0) ∧
      s.sql.runView secondID = some (.cancelled, 0, 0) := by
  intro s
  have run : Reaches (Both.step plainEnv) (Meets plainEnv) {} s := .of_exec (Option.some_get _).symm
  exact ⟨by decide, (stores_agree plainEnv run).2.1, by decide, by decide⟩

/-- The stores part when a run that recorded a result is reaped, when a trace arrives late, when
a run past its deadline is counted, and when a result names a run that does not exist. -/
theorem stores_differ :
    let after := exec (guarded (Both.step plainEnv) (Within plainEnv)) {}
    (∃ s, after [(1, .createRun firstID 0 "user" "u" 1 50), (2, .markRunStarted firstID),
        (3, .upsertRunResult (plainResult firstID)), (100, .reapStuckRuns plainBudget 10)] =
          some s ∧
      s.memory.runView firstID = some (.cancelled, 0, 0) ∧
      s.sql.runView firstID = some (.cancelled, 1, 0)) ∧
    (∃ s, after [(30, .upsertPathSnapshot (plainTrace 20)),
        (31, .upsertPathSnapshot (plainTrace 10))] = some s ∧
      (s.memory.snaps.lookup ⟨"a", "b", "path"⟩).map PathSnapshot.view = some (20, 10, 2) ∧
      (s.sql.snaps.lookup ⟨"a", "b", "path"⟩).map PathSnapshot.view = some (20, 20, 2)) ∧
    (∃ s, after [(1, .createRun firstID 0 "user" "u" 1 50),
        (60, .activeRunsByInitiator "user" "u")] = some s ∧ s.replies = some (.count 1, .count 0)) ∧
    ∃ s, after [(1, .upsertRunResult (plainResult firstID))] = some s ∧
      s.replies = some (.failed .notFound, .failed .other) := by
  refine ⟨⟨_, (Option.some_get ?_).symm, ?_, ?_⟩, ⟨_, (Option.some_get ?_).symm, ?_, ?_⟩,
    ⟨_, (Option.some_get ?_).symm, ?_⟩, ⟨_, (Option.some_get ?_).symm, ?_⟩⟩
  all_goals decide

end Kconmon.Console.RunStore
