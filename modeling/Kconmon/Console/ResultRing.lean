import Kconmon.Console.RunStores
import Kconmon.Lib.Recent
import Kconmon.Lib.Text

/-!
# The results that a run keeps in memory

The memory store keeps the newest results of each run and finds a result by its key. The index
holds positions that count the evicted results too, so that an eviction changes none of them; a
position less the number of evictions must lie in the slice. Here a slice access out of range is
an outcome of the call, and the rows carry the ids that the store hands out.
-/
namespace Kconmon.Console.ResultRing
open Lib
open RunStore (ResultKey)
open Checks (runResultsCap)

structure RunResultInput where
  runID : String
  sourceNode : String
  destinationNode : String
  success : Bool
  durationNs : Int
  error : String
  result : Bytes
  sampleSeq : Int
  deriving DecidableEq

structure RunResult where
  id : Nat
  runID : String
  sourceNode : String
  destinationNode : String
  success : Bool
  durationNs : Int
  error : String
  result : Bytes
  recordedAt : Int
  sampleSeq : Int
  deriving DecidableEq

def RunResultInput.key (i : RunResultInput) : ResultKey :=
  ⟨i.sourceNode, i.destinationNode, i.sampleSeq⟩

def RunResult.key (r : RunResult) : ResultKey := ⟨r.sourceNode, r.destinationNode, r.sampleSeq⟩

/-- The row that an input makes. -/
def RunResultInput.row (i : RunResultInput) (id : Nat) (now : Int) : RunResult where
  id := id
  runID := i.runID
  sourceNode := i.sourceNode
  destinationNode := i.destinationNode
  success := i.success
  durationNs := i.durationNs
  error := i.error
  result := i.result
  recordedAt := now
  sampleSeq := i.sampleSeq

/-- What a retried sample writes over its row. -/
def RunResult.overwrite (r : RunResult) (i : RunResultInput) (now : Int) : RunResult :=
  { r with
    success := i.success
    durationNs := i.durationNs
    error := i.error
    result := i.result
    recordedAt := now }

structure Entry where
  results : List RunResult := []
  index : GoMap ResultKey Nat := ∅
  evicted : Nat := 0

structure MemoryStore where
  runs : GoMap String Entry := ∅
  nextRes : Nat := 0

inductive UpsertError where
  | notFound
  | outOfRange
  deriving DecidableEq

/-- `l[i]` -/
def at? (l : List RunResult) (i : Int) : Option RunResult := if 0 ≤ i then l[i.toNat]? else none

/-- The oldest result goes when there are too many. -/
def Entry.trim (e : Entry) : Except UpsertError Entry :=
  if e.results.length > runResultsCap then
    match e.results with
    | [] => .error .outOfRange
    | old :: results =>
      .ok { e with results, index := e.index.erase old.key, evicted := e.evicted + 1 }
  else .ok e

def upsertRunResult (m : MemoryStore) (now : Int) (i : RunResultInput) :
    Except UpsertError (MemoryStore × RunResult) :=
  match m.runs.lookup i.runID with
  | none => .error .notFound
  | some entry =>
    match entry.index.lookup i.key with
    | some pos =>
      match at? entry.results (pos - entry.evicted) with
      | none => .error .outOfRange
      | some r =>
        let r := r.overwrite i now
        let results := entry.results.set (pos - entry.evicted) r
        .ok ({ m with runs := AList.insert i.runID { entry with results } m.runs }, r)
    | none =>
      let res := i.row (m.nextRes + 1) now
      let added : Entry :=
        { entry with
          index := AList.insert i.key (entry.evicted + entry.results.length) entry.index
          results := entry.results ++ [res] }
      match added.trim with
      | .error err => .error err
      | .ok entry => .ok (⟨AList.insert i.runID entry m.runs, m.nextRes + 1⟩, res)

/-- The rows of a run, and whether there were more. -/
def getRunResults (m : MemoryStore) (id : String) : List RunResult × Bool :=
  match m.runs.lookup id with
  | none => ([], false)
  | some entry => (entry.results, entry.evicted > 0)

/-- An input and the time at which it is written. -/
structure Sample where
  now : Int
  input : RunResultInput
  deriving DecidableEq

/-- The store after a call; one that fails leaves it as it was. -/
def write (m : MemoryStore) (c : Sample) : MemoryStore :=
  match upsertRunResult m c.now c.input with
  | .error _ => m
  | .ok (m', _) => m'

/-! ## What a run keeps -/

/-- The keys under which the samples of a run were inserted. -/
def log (samples : List Sample) : List ResultKey :=
  insertions runResultsCap (samples.map (·.input.key))

/-- The last of the samples with this key. -/
def lastOf (samples : List Sample) (key : ResultKey) : Option Sample :=
  (samples.filter (·.input.key = key)).getLast?

/-- The entry of a run after these samples of it. -/
structure Holds (samples : List Sample) (e : Entry) : Prop where
  count : e.evicted = (log samples).length - runResultsCap
  keys : e.results.map RunResult.key = (log samples).drop e.evicted
  index : Locates e.index (log samples) e.evicted
  values : ∀ r ∈ e.results, ∃ c, lastOf samples r.key = some c ∧ r = c.input.row r.id c.now
  ids : e.results.Pairwise fun a b => a.id < b.id

section
variable {samples : List Sample} {e : Entry} {id : String} {m : MemoryStore}

theorem log_append (samples : List Sample) (c : Sample) :
    log (samples ++ [c]) = takeIn runResultsCap (log samples) c.input.key := by
  rw [log, List.map_append, List.map_singleton, insertions_append, log]

theorem lastOf_append_self (samples : List Sample) (c : Sample) :
    lastOf (samples ++ [c]) c.input.key = some c := by
  simp [lastOf]

variable {c : Sample} {key : ResultKey}

theorem lastOf_append_ne (samples : List Sample) (other : c.input.key ≠ key) :
    lastOf (samples ++ [c]) key = lastOf samples key := by
  simp [lastOf, other]

theorem mem_of_lastOf (last : lastOf samples key = some c) : c ∈ samples ∧ c.input.key = key := by
  simpa using List.mem_of_getLast? last

theorem holds_empty : Holds [] {} where
  count := by simp [log, insertions]
  keys := by simp [log, insertions]
  index := locates_empty
  values := by simp
  ids := List.Pairwise.nil

theorem Holds.length_results (holds : Holds samples e) :
    e.evicted + e.results.length = (log samples).length := by
  have count := holds.count
  have length := congrArg List.length holds.keys
  rw [List.length_map, List.length_drop] at length
  omega

theorem Holds.recent_eq (holds : Holds samples e) :
    recent runResultsCap (log samples) = e.results.map RunResult.key := by
  rw [recent, ← holds.count, holds.keys]

/-- The position that the index has for a key is that of its row. -/
theorem Holds.at?_eq (holds : Holds samples e) {pos : Nat} (found : e.index.lookup key = some pos) :
    ∃ r, at? e.results (pos - e.evicted) = some r ∧ e.results[pos - e.evicted]? = some r ∧
      r.key = key := by
  obtain ⟨past, there⟩ := (holds.index key pos).mp found
  have keyed : (e.results.map RunResult.key)[pos - e.evicted]? = some key := by
    rw [holds.keys, List.getElem?_drop, Nat.add_sub_cancel' past, there]
  rw [List.getElem?_map, Option.map_eq_some_iff] at keyed
  obtain ⟨r, held, same⟩ := keyed
  have place : ((pos : Int) - e.evicted).toNat = pos - e.evicted := by omega
  exact ⟨r, by rw [at?, if_pos (by omega), place, held], held, same⟩

variable {r : RunResult}

theorem map_set_of_eq {β : Type} (f : RunResult → β) {l : List RunResult} {i : Nat}
    (held : l[i]? = some r) (r' : RunResult) (same : f r' = f r) :
    (l.set i r').map f = l.map f := by
  apply List.ext_getElem?
  intro n
  grind

theorem Holds.nodup (holds : Holds samples e) : (e.results.map RunResult.key).Nodup :=
  holds.keys ▸ holds.index.nodup

/-- A sample whose key is kept replaces the row of that key. -/
theorem Holds.overwrite (holds : Holds samples e) (own : ∀ c ∈ samples, c.input.runID = id)
    (mine : c.input.runID = id) {i : Nat} (held : e.results[i]? = some r)
    (same : r.key = c.input.key) :
    Holds (samples ++ [c]) { e with results := e.results.set i (r.overwrite c.input c.now) } := by
  have listed : r ∈ e.results := List.mem_of_getElem? held
  have kept : c.input.key ∈ recent runResultsCap (log samples) := by
    rw [holds.recent_eq, ← same]
    exact List.mem_map_of_mem listed
  have unlogged : log (samples ++ [c]) = log samples := by rw [log_append, takeIn, if_pos kept]
  have keys := map_set_of_eq RunResult.key held (r.overwrite c.input c.now) rfl
  have ids := map_set_of_eq RunResult.id held (r.overwrite c.input c.now) rfl
  refine ⟨by rw [unlogged, holds.count], by rw [unlogged, keys, holds.keys], unlogged ▸ holds.index,
    ?_, ?_⟩
  · intro r' there
    obtain ⟨n, at_n⟩ := List.mem_iff_getElem?.mp there
    rw [List.getElem?_set] at at_n
    split at at_n
    · obtain ⟨before, last, whole⟩ := holds.values r listed
      have run : r.runID = c.input.runID := by
        rw [whole, mine]
        exact own before (mem_of_lastOf last).1
      obtain rfl : r.overwrite c.input c.now = r' := by grind
      refine ⟨c, ?_, ?_⟩
      · rw [show (r.overwrite c.input c.now).key = c.input.key from same, lastOf_append_self]
      · obtain ⟨source, destination, seq⟩ := ResultKey.mk.inj same
        simp [RunResult.overwrite, RunResultInput.row, run, source, destination, seq]
    · rename_i elsewhere
      have other : c.input.key ≠ r'.key := by
        intro collide
        have first : (e.results.map RunResult.key)[i]? = some r'.key := by
          rw [List.getElem?_map, held, Option.map_some, same, collide]
        have second : (e.results.map RunResult.key)[n]? = some r'.key := by
          rw [List.getElem?_map, at_n, Option.map_some]
        have inside : i < (e.results.map RunResult.key).length := by grind
        exact elsewhere ((List.getElem?_inj inside holds.nodup).mp (first.trans second.symm))
      obtain ⟨before, last, whole⟩ := holds.values r' (List.mem_of_getElem? at_n)
      exact ⟨before, (lastOf_append_ne samples other).trans last, whole⟩
  · have sorted := holds.ids
    rw [← List.pairwise_map, ← ids, List.pairwise_map] at sorted
    exact sorted

/-- A sample whose key is not kept is filed behind the others, and the oldest row goes for it when
there are too many. -/
theorem Holds.insert (holds : Holds samples e) (unkept : e.index.lookup c.input.key = none)
    {n : Nat} (bound : ∀ r ∈ e.results, r.id ≤ n) : ∃ e', Entry.trim
        { e with
          index := AList.insert c.input.key (e.evicted + e.results.length) e.index
          results := e.results ++ [c.input.row (n + 1) c.now] } = .ok e' ∧
      Holds (samples ++ [c]) e' ∧ ∀ r ∈ e'.results, r.id ≤ n + 1 := by
  have length := holds.length_results
  have unknown : c.input.key ∉ (log samples).drop e.evicted := by
    rw [← holds.index.isSome_iff, unkept]
    simp
  have logged : log (samples ++ [c]) = log samples ++ [c.input.key] := by
    rw [log_append, takeIn, if_neg]
    rwa [recent, ← holds.count]
  have keys : (e.results ++ [c.input.row (n + 1) c.now]).map RunResult.key =
      (log (samples ++ [c])).drop e.evicted := by
    rw [List.map_append, holds.keys, logged, List.drop_append_of_le_length (by omega)]
    rfl
  have index : Locates (AList.insert c.input.key (e.evicted + e.results.length) e.index)
      (log (samples ++ [c])) e.evicted := by
    rw [length, logged]
    exact holds.index.append (by omega) unknown
  have values : ∀ r ∈ e.results ++ [c.input.row (n + 1) c.now],
      ∃ d, lastOf (samples ++ [c]) r.key = some d ∧ r = d.input.row r.id d.now := by
    intro r listed
    rcases List.mem_append.mp listed with old | new
    · obtain ⟨d, last, whole⟩ := holds.values r old
      have other : c.input.key ≠ r.key := by
        intro same
        exact unknown (same ▸ holds.keys ▸ List.mem_map_of_mem old)
      exact ⟨d, (lastOf_append_ne samples other).trans last, whole⟩
    · obtain rfl := List.mem_singleton.mp new
      exact ⟨c, lastOf_append_self samples c, rfl⟩
  have ids : (e.results ++ [c.input.row (n + 1) c.now]).Pairwise fun a b => a.id < b.id := by
    refine List.pairwise_append.mpr ⟨holds.ids, List.pairwise_singleton _ _, ?_⟩
    intro a ha b hb
    obtain rfl := List.mem_singleton.mp hb
    exact Nat.lt_succ_of_le (bound a ha)
  have top : ∀ r ∈ e.results ++ [c.input.row (n + 1) c.now], r.id ≤ n + 1 := by
    intro r listed
    rcases List.mem_append.mp listed with old | new
    · exact (bound r old).trans (Nat.le_succ n)
    · obtain rfl := List.mem_singleton.mp new
      exact le_rfl
  have count := holds.count
  have longer : (log (samples ++ [c])).length = (log samples).length + 1 := by
    rw [logged, List.length_append, List.length_singleton]
  rw [Entry.trim]
  simp only [List.length_append, List.length_singleton]
  split
  · rename_i beyond
    cases first : e.results ++ [c.input.row (n + 1) c.now] with
    | nil => simp at first
    | cons old rest =>
      rw [first] at keys values ids top
      have oldest : (log (samples ++ [c]))[e.evicted]? = some old.key := by
        have head := congrArg List.head? keys
        rw [List.head?_drop] at head
        exact head.symm
      refine ⟨_, rfl, ⟨by simp only; omega, ?_, index.evict oldest, ?_, ids.of_cons⟩, ?_⟩
      · have tail := congrArg List.tail keys
        rwa [List.tail_drop] at tail
      · exact fun r listed => values r (List.mem_cons_of_mem _ listed)
      · exact fun r listed => top r (List.mem_cons_of_mem _ listed)
  · rename_i fits
    exact ⟨_, rfl, ⟨by simp only; omega, keys, index, values, ids⟩, top⟩

/-! ## Calls -/

/-- The run `id` has had these samples. -/
structure Kept (id : String) (samples : List Sample) (m : MemoryStore) : Prop where
  entry : ∃ e, m.runs.lookup id = some e ∧ Holds samples e ∧ ∀ r ∈ e.results, r.id ≤ m.nextRes
  own : ∀ c ∈ samples, c.input.runID = id

/-- A sample of the run is stored. -/
theorem Kept.upsert (kept : Kept id samples m) (mine : c.input.runID = id) :
    ∃ m' r, upsertRunResult m c.now c.input = .ok (m', r) ∧ Kept id (samples ++ [c]) m' := by
  obtain ⟨e, held, holds, bound⟩ := kept.entry
  have own : ∀ d ∈ samples ++ [c], d.input.runID = id := by
    simpa [or_imp, forall_and, mine] using kept.own
  rw [upsertRunResult, mine, held]
  simp only
  cases found : e.index.lookup c.input.key with
  | some pos =>
    obtain ⟨r, read, there, same⟩ := holds.at?_eq found
    have next := holds.overwrite kept.own mine there same
    simp only [read]
    refine ⟨_, _, rfl, ⟨_, AList.lookup_insert _, next, fun r' listed => ?_⟩, own⟩
    have ids := map_set_of_eq RunResult.id there (r.overwrite c.input c.now) rfl
    have known : r'.id ∈ e.results.map RunResult.id := ids ▸ List.mem_map_of_mem listed
    obtain ⟨r'', before, id⟩ := List.mem_map.mp known
    exact id ▸ bound r'' before
  | none =>
    obtain ⟨e', trimmed, next, top⟩ := holds.insert found bound
    simp only [trimmed]
    exact ⟨_, _, rfl, ⟨e', AList.lookup_insert _, next, top⟩, own⟩

/-- A call for another run leaves the entry as it is and takes ids that are greater. -/
theorem upsertRunResult_other {now : Int} {i : RunResultInput} {m' : MemoryStore}
    (ok : upsertRunResult m now i = .ok (m', r)) (other : i.runID ≠ id) :
    m'.runs.lookup id = m.runs.lookup id ∧ m.nextRes ≤ m'.nextRes := by
  rw [upsertRunResult] at ok
  have apart : id ≠ i.runID := Ne.symm other
  split at ok
  · cases ok
  · split at ok
    · split at ok <;> cases ok
      exact ⟨AList.lookup_insert_ne apart, le_rfl⟩
    · dsimp only at ok
      split at ok <;> cases ok
      exact ⟨AList.lookup_insert_ne apart, Nat.le_succ _⟩

theorem Kept.write (kept : Kept id samples m) (c : Sample) :
    Kept id (samples ++ [c].filter (·.input.runID = id)) (write m c) := by
  by_cases mine : c.input.runID = id
  · obtain ⟨m', r, stored, next⟩ := kept.upsert mine
    rw [ResultRing.write, stored]
    simpa [mine] using next
  · have none : [c].filter (·.input.runID = id) = [] := by simp [mine]
    rw [none, List.append_nil, ResultRing.write]
    split
    · exact kept
    · rename_i m' r stored
      obtain ⟨same, later⟩ := upsertRunResult_other stored mine
      obtain ⟨e, held, holds, bound⟩ := kept.entry
      exact ⟨⟨e, same.trans held, holds, fun r listed => (bound r listed).trans later⟩, kept.own⟩

theorem Kept.writes (kept : Kept id samples m) (calls : List Sample) :
    Kept id (samples ++ calls.filter (·.input.runID = id)) (calls.foldl ResultRing.write m) := by
  induction calls generalizing samples m with
  | nil => simpa using kept
  | cons c calls ih =>
    have next := ih (kept.write c)
    rwa [List.append_assoc, ← List.filter_append] at next

/-- What the entry of a run is after these samples of it: the index has the positions of the rows,
counted from the first eviction; the rows are the last ones inserted, each with the values of its
last sample. -/
structure Entry.Exact (samples : List Sample) (e : Entry) : Prop where
  index : ∀ key pos, e.index.lookup key = some pos ↔
    e.evicted ≤ pos ∧ (e.results.map RunResult.key)[pos - e.evicted]? = some key
  bound : e.results.length ≤ runResultsCap
  distinct : (e.results.map RunResult.key).Nodup
  newest : e.results.map RunResult.key = recent runResultsCap (log samples)
  values : ∀ r ∈ e.results, ∃ c, lastOf samples r.key = some c ∧ r = c.input.row r.id c.now
  ids : e.results.Pairwise fun a b => a.id < b.id

theorem Holds.exact (holds : Holds samples e) : e.Exact samples where
  index key pos := by
    rw [holds.index key pos]
    refine and_congr_right fun past => ?_
    rw [holds.keys, List.getElem?_drop, Nat.add_sub_cancel' past]
  bound := by
    have length := holds.length_results
    have count := holds.count
    omega
  distinct := holds.nodup
  newest := holds.recent_eq.symm
  values := holds.values
  ids := holds.ids

/-- After any calls since a run was created, no call for it is out of range, its entry is exact,
and a read says that it is truncated when a row of it was evicted. -/
theorem upsertRunResult_exact (created : m.runs.lookup id = some {}) (calls : List Sample) :
    (∀ c : Sample, c.input.runID = id →
      upsertRunResult (calls.foldl write m) c.now c.input ≠ .error .outOfRange) ∧
    ∃ e, (calls.foldl write m).runs.lookup id = some e ∧
      e.Exact (calls.filter (·.input.runID = id)) ∧
      getRunResults (calls.foldl write m) id = (e.results,
        decide (e.results.length < (log (calls.filter (·.input.runID = id))).length)) := by
  have start : Kept id [] m := ⟨⟨{}, created, holds_empty, by simp⟩, by simp⟩
  have kept := start.writes calls
  rw [List.nil_append] at kept
  refine ⟨fun c mine failed => ?_, ?_⟩
  · obtain ⟨m', r, stored, -⟩ := kept.upsert mine
    rw [stored] at failed
    cases failed
  · obtain ⟨e, held, holds, -⟩ := kept.entry
    refine ⟨e, held, holds.exact, ?_⟩
    have length := holds.length_results
    rw [getRunResults, held]
    simp only [Prod.mk.injEq, decide_eq_decide, true_and]
    omega

end

def oneRun : MemoryStore := ⟨AList.insert "r1" ({} : Entry) ∅, 0⟩

def probe (seq : Int) : Sample := ⟨seq, ⟨"r1", "n1", "n2", true, 5, "", [], seq⟩⟩

theorem upsertRunResult_exact_retried :
    ∃ e, ([probe 0, probe 1, probe 0].foldl write oneRun).runs.lookup "r1" = some e ∧
      e.Exact [probe 0, probe 1, probe 0] := by
  have created : oneRun.runs.lookup "r1" = some {} := AList.lookup_insert _
  obtain ⟨-, e, held, exact, -⟩ := upsertRunResult_exact created [probe 0, probe 1, probe 0]
  exact ⟨e, held, exact⟩

/-! ## The store without ids -/

def RunResult.plain (r : RunResult) : RunStore.RunResult :=
  ⟨r.key, r.success, r.durationNs, r.error, r.recordedAt⟩

def RunResultInput.plain (i : RunResultInput) : RunStore.RunResultInput where
  runID := i.runID
  sourceNode := i.sourceNode
  destinationNode := i.destinationNode
  success := i.success
  durationNs := i.durationNs
  error := i.error
  sampleSeq := i.sampleSeq

def Entry.plain (run : RunStore.Run) (e : Entry) : RunStore.Entry where
  run := run
  results := e.results.map RunResult.plain
  index := e.index
  evicted := e.evicted

/-- Without the ids and the payloads, a call does to the entry what the model of both stores has it
do. -/
theorem plain_upsert {samples : List Sample} {m m' : MemoryStore} {e : Entry} {now : Int}
    {i : RunResultInput} {r : RunResult} (holds : Holds samples e)
    (held : m.runs.lookup i.runID = some e) (ok : upsertRunResult m now i = .ok (m', r))
    (run : RunStore.Run) :
    ∃ e', m'.runs.lookup i.runID = some e' ∧ e'.plain run = (e.plain run).upsert now i.plain := by
  have key : i.plain.key = i.key := rfl
  rw [upsertRunResult, held] at ok
  simp only at ok
  rw [RunStore.Entry.upsert, key]
  cases found : e.index.lookup i.key with
  | some pos =>
    obtain ⟨old, read, there, same⟩ := holds.at?_eq found
    simp only [found, read, Except.ok.injEq, Prod.mk.injEq] at ok
    obtain ⟨rfl, rfl⟩ := ok
    refine ⟨_, AList.lookup_insert _, ?_⟩
    have row : (old.overwrite i now).plain = i.plain.row now := by
      rw [RunResult.plain, show (old.overwrite i now).key = i.key from same]
      rfl
    have indexed : (e.plain run).index.lookup i.key = some pos := found
    rw [indexed]
    have placed : (e.results.set (pos - e.evicted) (old.overwrite i now)).map RunResult.plain =
        (e.results.map RunResult.plain).modify (pos - e.evicted) fun _ => i.plain.row now := by
      apply List.ext_getElem?
      intro n
      rw [List.map_set, row]
      grind
    simp only [Entry.plain, placed]
  | none =>
    have indexed : (e.plain run).index.lookup i.key = none := found
    have appended : (e.results ++ [i.row (m.nextRes + 1) now]).map RunResult.plain =
        e.results.map RunResult.plain ++ [i.plain.row now] := by
      rw [List.map_append]
      rfl
    simp only [found, Entry.trim] at ok
    rw [indexed]
    simp only [Entry.plain, ← appended, List.length_map]
    split at ok <;> cases ok
    rename_i e' trimmed
    refine ⟨e', AList.lookup_insert _, ?_⟩
    split at trimmed
    · rename_i beyond
      rw [if_pos beyond]
      split at trimmed <;> cases trimmed
      rename_i old rest first
      simp [first, RunResult.plain]
    · rename_i fits
      rw [if_neg fits]
      cases trimmed
      rfl

end Kconmon.Console.ResultRing
