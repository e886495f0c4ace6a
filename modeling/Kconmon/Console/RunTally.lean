import Kconmon.Console.DispatchOrder
import Kconmon.Console.RunExecution
import Kconmon.Lib.Runs

/-!
# The history row and the detail page of a run

The tally that closes a run counts what each pair recorded last; the detail page
counts what each pair's newest stored row says. Rounds come one after the other
and only the last one can be cut short, so every pair has its newest row in the
last two rounds, far inside the rows that one read returns.
-/
namespace Kconmon.Console.Checks
open Lib

/-! ## A plan's pairs are told apart by source and label -/

def Pair.slot (p : Pair) (seq : Nat) : String × String × Nat := (p.source, p.destination.label, seq)

def Pair.key (p : Pair) : String := pairKey p.source p.destination.label

def RunResult.key (r : RunResult) : String := pairKey r.sourceNode r.destinationNode

/-- A run probes nodes, or one destination outside the cluster. -/
def Spec.Toward (spec : Spec) : Prop := spec.typedDestinations = [] ∨
    spec.destinations = [] ∧ ∃ d, d.isNode = false ∧ spec.typedDestinations = [d]

theorem plan_label_injective {spec : Spec} {nodes : List String} {pairs : List Pair}
    (planned : plan spec nodes = .ok pairs) (toward : spec.Toward) {p q : Pair} (hp : p ∈ pairs)
    (hq : q ∈ pairs) (source : p.source = q.source)
    (label : p.destination.label = q.destination.label) : p = q := by
  obtain ⟨destinations, resolved, -, -, mem⟩ := plan_ok planned
  obtain ⟨-, -, destP⟩ := (mem p).mp hp
  obtain ⟨-, -, destQ⟩ := (mem q).mp hq
  have destination : p.destination = q.destination := by
    rcases toward with nodesOnly | ⟨unnamed, d, external, typed⟩
    · have node : ∀ d ∈ destinations, d = nodeDestination d.label := by
        intro d hd
        unfold planDestinations at resolved
        rw [nodesOnly] at resolved
        have listed : ∃ names : List String, destinations = names.map nodeDestination := by
          split_ifs at resolved
          · exact ⟨nodes, (Except.ok.inj resolved).symm⟩
          · exact ⟨spec.destinations, by simpa [checkTyped] using (Except.ok.inj resolved).symm⟩
        obtain ⟨names, rfl⟩ := listed
        obtain ⟨name, -, rfl⟩ := List.mem_map.mp hd
        rfl
      rw [node _ destP, node _ destQ, label]
    · have only : ∀ d' ∈ destinations, d' = d := by
        intro d' hd
        unfold planDestinations at resolved
        rw [unnamed, typed, if_neg (by simp)] at resolved
        split at resolved <;> cases resolved
        simpa using hd
      rw [only _ destP, only _ destQ]
  cases p
  cases q
  cases source
  cases destination
  rfl

theorem pairKey_inj {source destination source' destination' : String}
    (fine : storable source ∧ storable destination)
    (same : pairKey source destination = pairKey source' destination') :
    source = source' ∧ destination = destination' := by
  have lists := congrArg String.toList same
  simp only [pairKey, String.toList_append, String.toList_singleton, List.append_assoc,
    List.singleton_append] at lists
  simp only [storable, decide_eq_true_eq] at fine
  obtain ⟨left, -, right⟩ := (List.append_cons_inj_of_notMem fine.1 fine.2).mp lists
  exact ⟨String.toList_inj.mp left, String.toList_inj.mp right⟩

/-! ## What holds along a run -/

def Stage.unwritten : Stage → Bool
  | .reporting _ => false
  | _ => true

/-- The newest stored sample of each pair. -/
def tallyOf (rows : List RunResult) : GoMap String Bool :=
  rows.foldl (fun m r => AList.insert r.key r.success m) ∅

theorem lookup_tallyOf_append (rows : List RunResult) (r : RunResult) (k : String) :
    (tallyOf (rows ++ [r])).lookup k =
      if k = r.key then some r.success else (tallyOf rows).lookup k := by
  rw [tallyOf, List.foldl_append, List.foldl_cons, List.foldl_nil, GoMap.lookup_insert_if]
  rfl

/-- The pair has a row, of whatever round. -/
def HasRow (p : Pair) (rows : List RunResult) : Prop :=
  ∃ r ∈ rows, r.sourceNode = p.source ∧ r.destinationNode = p.destination.label

theorem hasRow_of_slot {p : Pair} {rows : List RunResult} {seq : Nat}
    (there : p.slot seq ∈ rows.map RunResult.slot) : HasRow p rows := by
  obtain ⟨r, mem, same⟩ := List.mem_map.mp there
  simp only [RunResult.slot, Pair.slot, Prod.mk.injEq] at same
  exact ⟨r, mem, same.1, same.2.1⟩

namespace RunState

/-- The goroutine of `i` has yet to write its row. -/
def Unwritten (flights : GoMap Nat Stage) (i : Nat) : Prop :=
  ∃ stage, flights.lookup i = some stage ∧ stage.unwritten = true

/-- The goroutine of `i` has recorded an outcome under the key and has yet to write its row. -/
def Owed (job : Job) (flights : GoMap Nat Stage) (k : String) (i : Nat) (o : PairOutcome) : Prop :=
  flights.lookup i = some (.recorded o) ∧ ∃ p, job.pairs[i]? = some p ∧ p.key = k

/-- The tally says what the goroutine that owes the row recorded, or what the newest row says. -/
def Tallied (job : Job) (flights : GoMap Nat Stage) (latest : GoMap String Bool)
    (rows : List RunResult) (k : String) : Prop :=
  (∃ i o, Owed job flights k i o ∧ latest.lookup k = some o.success) ∨
    (∀ i o, ¬ Owed job flights k i o) ∧ latest.lookup k = (tallyOf rows).lookup k

structure Inv (job : Job) (s : RunState) : Prop where
  /-- an index that is queued was not dispatched in this round -/
  queue : s.queue.Nodup ∧ ∀ i ∈ s.queue, s.inFlight.lookup i = none
  stopped : s.stopped = true → s.cancelled = true
  sleeping : s.phase = .sleeping → s.queue = [] ∧ s.inFlight.entries = []
  finished : ∀ status ok failed, s.phase = .finished status ok failed →
    s.inFlight.entries = [] ∧ (ok, failed) = s.outcomes.pairs
  own : ∀ r ∈ s.rows, r.sampleSeq ≤ s.round ∧ ∃ p ∈ job.pairs, r.slot = p.slot r.sampleSeq
  sorted : s.rows.Pairwise fun r r' => r.sampleSeq ≤ r'.sampleSeq
  distinct : (s.rows.map RunResult.slot).Nodup
  /-- every round but this one has a row for each pair -/
  complete : ∀ seq < s.round, ∀ p ∈ job.pairs, p.slot seq ∈ s.rows.map RunResult.slot
  current : ∀ i p, job.pairs[i]? = some p →
    (p.slot s.round ∈ s.rows.map RunResult.slot ↔ i ∉ s.queue ∧ ¬ Unwritten s.inFlight i)
  tallied : ∀ k, Tallied job s.inFlight s.outcomes.latest s.rows k
  shown : ∀ f ∈ s.frames, ∃ i p, job.pairs[i]? = some p ∧ f.source = p.source ∧
    f.destination = p.destination.label ∧ ((s.inFlight.lookup i).isSome ∨ HasRow p s.rows)

/-- All result writes succeed and every probe comes back. -/
def Clean (_ : RunState) : RunEvent → Prop
  | .written _ ok => ok = true
  | .panicked _ _ => False
  | _ => True

instance (s : RunState) (e : RunEvent) : Decidable (Clean s e) :=
  match e with
  | .written _ ok => inferInstanceAs (Decidable (ok = true))
  | .panicked _ _ => .isFalse id
  | .cancel _ | .dispatch | .stopDispatch | .advance _ | .probed _ _ | .endRound _ | .wake _
  | .giveUp => .isTrue trivial

theorem goroutine_eq_some {job : Job} {s : RunState} {i : Nat} {g : Pair × Stage} :
    s.goroutine job i = some g ↔ job.pairs[i]? = some g.1 ∧ s.inFlight.lookup i = some g.2 := by
  unfold goroutine
  cases job.pairs[i]? <;> cases s.inFlight.lookup i <;> simp [Prod.ext_iff]

/-! ## Goroutines -/

/-- What a step of one goroutine leaves alone. -/
structure SameRound (s t : RunState) : Prop where
  queue : t.queue = s.queue
  stopped : t.stopped = s.stopped
  cancelled : t.cancelled = s.cancelled
  phase : t.phase = s.phase
  round : t.round = s.round

/-- The goroutine of `i` goes on to another stage, or ends. -/
def Restaged (i : Nat) (stage : Option Stage) (flights flights' : GoMap Nat Stage) : Prop :=
  ∀ j, flights'.lookup j = if j = i then stage else flights.lookup j

theorem restaged_insert (i : Nat) (stage : Stage) (flights : GoMap Nat Stage) :
    Restaged i (some stage) flights (AList.insert i stage flights) :=
  fun _ => GoMap.lookup_insert_if ..

theorem Restaged.own {i : Nat} {stage : Option Stage} {flights flights' : GoMap Nat Stage}
    (restaged : Restaged i stage flights flights') : flights'.lookup i = stage :=
  (restaged i).trans (if_pos rfl)

theorem restaged_erase (i : Nat) (flights : GoMap Nat Stage) :
    Restaged i none flights (flights.erase i) := fun _ => GoMap.lookup_erase_if ..

section Goroutines

variable {job : Job} {s t : RunState} {i : Nat} {p : Pair} {old : Stage} {new : Option Stage}
  {flights flights' : GoMap Nat Stage} {latest : GoMap String Bool} {rows : List RunResult}
  {k : String}

/-- Who owes a row under `k` does not change unless `i` comes to owe it or stops to. -/
theorem Restaged.owed_iff (restaged : Restaged i new flights flights')
    (before : ∀ o, ¬ Owed job flights k i o) (after : ∀ o, ¬ Owed job flights' k i o) (j : Nat)
    (o : PairOutcome) : Owed job flights' k j o ↔ Owed job flights k j o := by
  by_cases own : j = i
  · subst own
    exact iff_of_false (after o) (before o)
  · rw [Owed, restaged, if_neg own]
    rfl

theorem Tallied.restage (tallied : Tallied job flights latest rows k)
    (restaged : Restaged i new flights flights') (before : ∀ o, ¬ Owed job flights k i o)
    (after : ∀ o, ¬ Owed job flights' k i o) : Tallied job flights' latest rows k := by
  simpa only [Tallied, restaged.owed_iff before after] using tallied

/-- Goroutines only run while the round is being dispatched. -/
theorem Inv.awake (inv : Inv job s) (flying : s.inFlight.lookup i = some old) :
    s.phase = .dispatching := by
  have busy : s.inFlight.entries ≠ [] := fun empty => by
    rw [GoMap.lookup_of_entries_nil empty] at flying
    cases flying
  cases phase : s.phase with
  | dispatching => rfl
  | sleeping => exact absurd (inv.sleeping phase).2 busy
  | finished status ok failed => exact absurd (inv.finished _ _ _ phase).1 busy

theorem Inv.not_queued (inv : Inv job s) (flying : s.inFlight.lookup i = some old) :
    i ∉ s.queue := by
  intro mem
  rw [inv.queue.2 i mem] at flying
  cases flying

/-- A goroutine that has written its row has one. -/
theorem Inv.hasRow (inv : Inv job s) (pair : job.pairs[i]? = some p)
    (flying : s.inFlight.lookup i = some old) (written : old.unwritten = false) :
    HasRow p s.rows := by
  refine hasRow_of_slot ((inv.current i p pair).mpr ⟨inv.not_queued flying, ?_⟩)
  rintro ⟨stage, found, unwritten⟩
  rw [flying] at found
  cases found
  rw [written] at unwritten
  cases unwritten

/-- A step of one goroutine that writes no row. -/
theorem Inv.move (inv : Inv job s) (pair : job.pairs[i]? = some p)
    (flying : s.inFlight.lookup i = some old) (same : SameRound s t) (rows : t.rows = s.rows)
    (restaged : Restaged i new s.inFlight t.inFlight)
    (kept : (∃ stage, new = some stage ∧ stage.unwritten = true) ↔ old.unwritten = true)
    (frames : ∀ f ∈ t.frames, f ∈ s.frames ∨
      f.source = p.source ∧ f.destination = p.destination.label)
    (tallied : ∀ k, Tallied job t.inFlight t.outcomes.latest s.rows k) : Inv job t := by
  have phase := inv.awake flying
  -- the goroutine is still there, or its row is
  have started : new.isSome ∨ HasRow p s.rows := by
    cases new with
    | some stage => exact Or.inl rfl
    | none =>
      refine Or.inr (inv.hasRow pair flying ?_)
      cases unwritten : old.unwritten with
      | false => rfl
      | true =>
        obtain ⟨stage, none, -⟩ := kept.mpr unwritten
        cases none
  exact {
    queue := by
      rw [same.queue]
      refine ⟨inv.queue.1, fun j mem => ?_⟩
      have other : j ≠ i := fun eq => inv.not_queued flying (eq ▸ mem)
      rw [restaged, if_neg other, inv.queue.2 j mem]
    stopped := by
      rw [same.stopped, same.cancelled]
      exact inv.stopped
    sleeping := fun sleeps => absurd ((same.phase.trans phase).symm.trans sleeps) nofun
    finished := fun _ _ _ ended => absurd ((same.phase.trans phase).symm.trans ended) nofun
    own := by
      rw [rows, same.round]
      exact inv.own
    sorted := by
      rw [rows]
      exact inv.sorted
    distinct := by
      rw [rows]
      exact inv.distinct
    complete := by
      rw [rows, same.round]
      exact inv.complete
    current := by
      intro j q found
      rw [rows, same.round, same.queue, inv.current j q found]
      refine and_congr_right fun _ => not_congr ?_
      unfold Unwritten
      rw [restaged]
      by_cases own : j = i
      · subst own
        simp [kept, flying]
      · rw [if_neg own]
    tallied := by
      rw [rows]
      exact tallied
    shown := by
      intro f mem
      rw [rows]
      rcases frames f mem with before | ⟨source, destination⟩
      · obtain ⟨j, q, found, source, destination, seen⟩ := inv.shown f before
        refine ⟨j, q, found, source, destination, ?_⟩
        rw [restaged]
        by_cases own : j = i
        · subst own
          cases pair.symm.trans found
          rw [if_pos rfl]
          exact started
        · rw [if_neg own]
          exact seen
      · refine ⟨i, p, pair, source, destination, ?_⟩
        rw [restaged, if_pos rfl]
        exact started }

theorem not_owed (stage : flights.lookup i = new) (quiet : ∀ o, new ≠ some (.recorded o))
    (o : PairOutcome) : ¬ Owed job flights k i o := fun owed => quiet o (stage.symm.trans owed.1)

/-- An index owes its row under its own key only. -/
theorem not_owed_of_ne (pair : job.pairs[i]? = some p) (other : k ≠ p.key) (o : PairOutcome) :
    ¬ Owed job flights k i o := by
  rintro ⟨-, q, found, key⟩
  cases pair.symm.trans found
  exact other key.symm

/-- The first frame of a pair. -/
theorem Inv.begin (inv : Inv job s) (pair : job.pairs[i]? = some p)
    (flying : s.inFlight.lookup i = some .launched) :
    Inv job ((s.publish (s.begun job p)).setStage i .waiting) := by
  have restaged := restaged_insert i .waiting s.inFlight
  refine inv.move pair flying ⟨rfl, rfl, rfl, rfl, rfl⟩ rfl restaged (by simp [Stage.unwritten])
    (fun f mem => ?_) fun k => ?_
  · rcases List.mem_append.mp mem with before | mem
    · exact Or.inl before
    · obtain rfl := List.mem_singleton.mp mem
      exact Or.inr ⟨rfl, rfl⟩
  · exact (inv.tallied k).restage restaged (not_owed flying (by simp))
      (not_owed restaged.own (by simp))

/-- The last frame of a pair whose row is written. -/
theorem Inv.report (inv : Inv job s) (pair : job.pairs[i]? = some p) {o : PairOutcome}
    (flying : s.inFlight.lookup i = some (.reporting o)) (state : PairState) :
    Inv job (s.report job i p state o) := by
  have restaged := restaged_erase i s.inFlight
  refine inv.move pair flying ⟨rfl, rfl, rfl, rfl, rfl⟩ rfl restaged (by simp [Stage.unwritten])
    (fun f mem => ?_) fun k => ?_
  · rcases List.mem_append.mp mem with before | mem
    · exact Or.inl before
    · obtain rfl := List.mem_singleton.mp mem
      exact Or.inr ⟨rfl, rfl⟩
  · exact (inv.tallied k).restage restaged (not_owed flying (by simp))
      (not_owed restaged.own (by simp))

/-- The probe comes back: from here on the tally is ahead of the rows. -/
theorem Inv.probe (inv : Inv job s) (pair : job.pairs[i]? = some p)
    (flying : s.inFlight.lookup i = some .waiting) (o : PairOutcome) :
    Inv job ((s.record p o.success).setStage i (.recorded o)) := by
  have restaged := restaged_insert i (.recorded o) s.inFlight
  refine inv.move pair flying ⟨rfl, rfl, rfl, rfl, rfl⟩ rfl restaged (by simp [Stage.unwritten])
    (fun f mem => Or.inl mem) fun k => ?_
  have latest : ((s.record p o.success).setStage i (.recorded o)).outcomes.latest.lookup k =
      if k = p.key then some o.success else s.outcomes.latest.lookup k := GoMap.lookup_insert_if ..
  by_cases own : k = p.key
  · exact Or.inl ⟨i, o, ⟨(restaged i).trans (if_pos rfl), p, pair, own.symm⟩,
      latest.trans (if_pos own)⟩
  · have before := (inv.tallied k).restage restaged (not_owed_of_ne pair own)
      (not_owed_of_ne pair own)
    unfold Tallied at before ⊢
    rw [latest, if_neg own]
    exact before

/-- The pairs of the job differ in their source or in their label. -/
def Apart (job : Job) : Prop := ∀ (i j : Nat) (p q : Pair), job.pairs[i]? = some p →
    job.pairs[j]? = some q → p.source = q.source → p.destination.label = q.destination.label → i = j

/-- Once `i` has written its row the rows say what the tally says about it. -/
theorem Inv.tallied_write (inv : Inv job s) (apart : Apart job) (pair : job.pairs[i]? = some p)
    {o : PairOutcome} (flying : s.inFlight.lookup i = some (.recorded o))
    (fine : storable p.source ∧ storable p.destination.label) (k : String) :
    Tallied job (AList.insert i (.reporting o) s.inFlight) s.outcomes.latest
      (s.rows ++ [s.rowOf p o]) k := by
  have restaged := restaged_insert i (.reporting o) s.inFlight
  have settled (o' : PairOutcome) : ¬ Owed job (AList.insert i (.reporting o) s.inFlight) k i o' :=
    not_owed restaged.own (by simp) o'
  have tally : (tallyOf (s.rows ++ [s.rowOf p o])).lookup k =
      if k = p.key then some o.success else (tallyOf s.rows).lookup k :=
    lookup_tallyOf_append s.rows (s.rowOf p o) k
  by_cases own : k = p.key
  · subst own
    have owes : ∀ j o', Owed job s.inFlight p.key j o' → j = i := by
      rintro j o' ⟨-, q, found, key⟩
      obtain ⟨source, label⟩ := pairKey_inj fine key.symm
      exact (apart i j p q pair found source label).symm
    refine Or.inr ⟨fun j o' owed => ?_, ?_⟩
    · by_cases same : j = i
      · exact settled o' (same ▸ owed)
      · have stage := owed.1
        rw [restaged, if_neg same] at stage
        exact same (owes j o' ⟨stage, owed.2⟩)
    · rw [tally, if_pos rfl]
      rcases inv.tallied p.key with ⟨j, o', owed, latest⟩ | ⟨none, -⟩
      · obtain rfl := owes j o' owed
        obtain rfl := Stage.recorded.inj (Option.some.inj (flying.symm.trans owed.1))
        exact latest
      · exact absurd ⟨flying, p, pair, rfl⟩ (none i o)
  · have before := (inv.tallied k).restage restaged (not_owed_of_ne pair own) settled
    unfold Tallied at before ⊢
    rw [tally, if_neg own]
    exact before

/-- The row is written: the rows catch up with the tally. -/
theorem Inv.write (inv : Inv job s) (apart : Apart job) (pair : job.pairs[i]? = some p)
    {o : PairOutcome} (flying : s.inFlight.lookup i = some (.recorded o))
    (fine : storable p.source ∧ storable p.destination.label) :
    Inv job ({ s with rows := upsertRunResult s.rows (s.rowOf p o) }.setStage i (.reporting o)) :=
      by
  have phase := inv.awake flying
  have restaged := restaged_insert i (.reporting o) s.inFlight
  have unqueued := inv.not_queued flying
  have fresh : p.slot s.round ∉ s.rows.map RunResult.slot := by
    intro there
    exact ((inv.current i p pair).mp there).2 ⟨_, flying, rfl⟩
  have appended : upsertRunResult s.rows (s.rowOf p o) = s.rows ++ [s.rowOf p o] := if_neg fresh
  rw [appended]
  have slots : (s.rows ++ [s.rowOf p o]).map RunResult.slot =
      s.rows.map RunResult.slot ++ [p.slot s.round] := List.map_append
  refine {
    queue := ⟨inv.queue.1, fun j mem => ?_⟩
    stopped := inv.stopped
    sleeping := fun sleeps => absurd (phase.symm.trans sleeps) nofun
    finished := fun _ _ _ ended => absurd (phase.symm.trans ended) nofun
    own := fun r mem => ?_
    sorted := ?_
    distinct := ?_
    complete := fun seq earlier q mem => ?_
    current := fun j q found => ?_
    tallied := inv.tallied_write apart pair flying fine
    shown := fun f mem => ?_ }
  · have other : j ≠ i := fun eq => unqueued (eq ▸ mem)
    exact (restaged j).trans ((if_neg other).trans (inv.queue.2 j mem))
  · rcases List.mem_append.mp mem with before | mem
    · exact inv.own r before
    · obtain rfl := List.mem_singleton.mp mem
      exact ⟨le_rfl, p, List.mem_of_getElem? pair, rfl⟩
  · refine List.pairwise_append.mpr
      ⟨inv.sorted, List.pairwise_singleton _ _, fun r mem r' mem' => ?_⟩
    obtain rfl := List.mem_singleton.mp mem'
    exact (inv.own r mem).1
  · change ((s.rows ++ [s.rowOf p o]).map RunResult.slot).Nodup
    rw [slots]
    exact List.nodup_append'.mpr ⟨inv.distinct, List.nodup_singleton _, by simpa using fresh⟩
  · change q.slot seq ∈ (s.rows ++ [s.rowOf p o]).map RunResult.slot
    rw [slots]
    exact List.mem_append_left _ (inv.complete seq earlier q mem)
  · change q.slot s.round ∈ (s.rows ++ [s.rowOf p o]).map RunResult.slot ↔
      j ∉ s.queue ∧ ¬ Unwritten (AList.insert i (.reporting o) s.inFlight) j
    rw [slots, List.mem_append, List.mem_singleton, inv.current j q found]
    unfold Unwritten
    rw [restaged]
    by_cases own : j = i
    · subst own
      cases pair.symm.trans found
      simp [unqueued, Stage.unwritten]
    · have differs : q.slot s.round ≠ p.slot s.round := by
        intro same
        simp only [Pair.slot, Prod.mk.injEq] at same
        exact own (apart j i q p found pair same.1 same.2.1)
      rw [if_neg own, or_iff_left differs]
  · obtain ⟨j, q, found, source, destination, seen⟩ := inv.shown f mem
    refine ⟨j, q, found, source, destination, ?_⟩
    change ((AList.insert i (.reporting o) s.inFlight).lookup j).isSome ∨
      HasRow q (s.rows ++ [s.rowOf p o])
    rcases seen with flies | ⟨r, mem, same⟩
    · left
      rw [restaged]
      split_ifs
      · rfl
      · exact flies
    · exact Or.inr ⟨r, List.mem_append_left _ mem, same⟩

end Goroutines

/-! ## Rounds -/

section Rounds

variable {job : Job} {s t : RunState}

theorem inv_start (job : Job) : Inv job (start job) where
  queue := ⟨(perm_interleaveBySource job.pairs).nodup_iff.mpr List.nodup_range, fun _ _ => rfl⟩
  stopped := nofun
  sleeping := nofun
  finished := nofun
  own := nofun
  sorted := List.Pairwise.nil
  distinct := List.nodup_nil
  complete := nofun
  current i p found := by
    have queued : i ∈ interleaveBySource job.pairs := by
      rw [(perm_interleaveBySource job.pairs).mem_iff, List.mem_range]
      exact (List.getElem?_eq_some_iff.mp found).1
    exact iff_of_false (List.not_mem_nil) fun h => h.1 queued
  tallied k := Or.inr ⟨fun i o => not_owed (GoMap.lookup_of_entries_nil rfl i) nofun o, rfl⟩
  shown := nofun

section
variable (inv : Inv job s)
include inv

theorem Inv.dispatch (taken : s.dispatch job = some t) : Inv job t := by
  unfold RunState.dispatch at taken
  split at taken
  · cases taken
  rename_i i queue next
  split_ifs at taken with free
  cases taken
  obtain ⟨nodup, unstarted⟩ := inv.queue
  rw [next] at nodup unstarted
  obtain ⟨fresh, nodup⟩ := List.nodup_cons.mp nodup
  have absent : s.inFlight.lookup i = none := unstarted i List.mem_cons_self
  have restaged := restaged_insert i .launched s.inFlight
  exact {
    queue := by
      refine ⟨nodup, fun j mem => (restaged j).trans ?_⟩
      have other : j ≠ i := fun eq => fresh (eq ▸ mem)
      rw [if_neg other]
      exact unstarted j (List.mem_cons_of_mem _ mem)
    stopped := inv.stopped
    sleeping := fun sleeps => absurd (free.1.symm.trans sleeps) nofun
    finished := fun _ _ _ ended => absurd (free.1.symm.trans ended) nofun
    own := inv.own
    sorted := inv.sorted
    distinct := inv.distinct
    complete := inv.complete
    current := by
      intro j p found
      refine (inv.current j p found).trans ?_
      change _ ↔ j ∉ queue ∧ ¬ Unwritten (AList.insert i .launched s.inFlight) j
      unfold Unwritten
      rw [next, List.mem_cons, restaged]
      by_cases own : j = i
      · simp [own, Stage.unwritten]
      · simp [own]
    tallied := fun k => (inv.tallied k).restage restaged (not_owed absent (by simp))
      (not_owed restaged.own (by simp))
    shown := by
      intro f mem
      obtain ⟨j, q, found, source, destination, seen⟩ := inv.shown f mem
      refine ⟨j, q, found, source, destination, seen.imp_left fun flies => ?_⟩
      change ((AList.insert i .launched s.inFlight).lookup j).isSome
      rw [restaged]
      split_ifs
      · rfl
      · exact flies }

theorem Inv.finish (idle : s.inFlight.entries = []) : Inv job (s.finish job) :=
  { inv with
    sleeping := nofun
    finished := by
      rintro status ok failed ended
      obtain ⟨-, rfl, rfl⟩ := Phase.finished.inj ended
      exact ⟨idle, rfl⟩ }

theorem Inv.endRound (ended : s.queue = [] ∨ s.stopped = true)
    (idle : s.inFlight.entries = []) (now : Int) : Inv job (s.endRound job now) := by
  have sleeps (going : ¬ s.cancelled = true) : Inv job { s with phase := .sleeping } := by
    have all : s.queue = [] := ended.resolve_right fun stopped => going (inv.stopped stopped)
    exact { inv with sleeping := fun _ => ⟨all, idle⟩, finished := fun _ _ _ h => nomatch h }
  unfold RunState.endRound
  split_ifs with cancelled
  all_goals first | exact inv.finish idle | exact sleeps cancelled

/-- A round that is followed by another has a row for each pair. -/
theorem Inv.nextRound (asleep : s.phase = .sleeping) : Inv job (s.nextRound job) := by
  obtain ⟨queue, idle⟩ := inv.sleeping asleep
  have absent : ∀ i, s.inFlight.lookup i = none := GoMap.lookup_of_entries_nil idle
  exact { inv with
    queue := ⟨(perm_interleaveBySource job.pairs).nodup_iff.mpr List.nodup_range,
      fun i _ => absent i⟩
    stopped := nofun
    sleeping := nofun
    finished := nofun
    own := fun r mem => ⟨Nat.le_succ_of_le (inv.own r mem).1, (inv.own r mem).2⟩
    complete := by
      intro seq earlier p mem
      rcases Nat.lt_succ_iff_lt_or_eq.mp earlier with before | rfl
      · exact inv.complete seq before p mem
      · obtain ⟨i, found⟩ := List.getElem?_of_mem mem
        refine (inv.current i p found).mpr ⟨by simp [queue], ?_⟩
        rintro ⟨stage, flying, -⟩
        rw [absent] at flying
        cases flying
    current := by
      intro i p found
      refine iff_of_false (fun there => ?_) fun h => h.1 ?_
      · obtain ⟨r, mem, same⟩ := List.mem_map.mp there
        have seq : r.sampleSeq = s.round + 1 := congrArg (fun slot => slot.2.2) same
        exact absurd (inv.own r mem).1 (by omega)
      · change i ∈ interleaveBySource job.pairs
        rw [(perm_interleaveBySource job.pairs).mem_iff, List.mem_range]
        exact (List.getElem?_eq_some_iff.mp found).1 }

theorem Inv.step (apart : Apart job) {e : RunEvent} (clean : Clean s e)
    (taken : s.step job e = some t) : Inv job t := by
  cases e with
  | cancel byOperator =>
    cases taken
    exact { inv with stopped := fun _ => rfl }
  | dispatch => exact inv.dispatch taken
  | stopDispatch =>
    obtain ⟨⟨-, cancelled⟩, done⟩ := Option.ite_none_right_eq_some.mp taken
    cases done
    exact { inv with stopped := fun _ => cancelled }
  | advance i =>
    obtain ⟨⟨p, stage⟩, found, taken⟩ := Option.bind_eq_some_iff.mp taken
    obtain ⟨pair, flying⟩ := goroutine_eq_some.mp found
    cases stage with
    | launched =>
      cases taken
      exact inv.begin pair flying
    | waiting => cases taken
    | recorded o => cases taken
    | reporting o =>
      cases taken
      exact inv.report pair flying o.state
  | probed i o =>
    obtain ⟨⟨p, stage⟩, found, taken⟩ := Option.bind_eq_some_iff.mp taken
    obtain ⟨pair, flying⟩ := goroutine_eq_some.mp found
    cases stage with
    | waiting =>
      cases taken
      exact inv.probe pair flying o
    | launched => cases taken
    | recorded o => cases taken
    | reporting o => cases taken
  | written i ok =>
    obtain rfl : ok = true := clean
    obtain ⟨⟨p, stage⟩, found, taken⟩ := Option.bind_eq_some_iff.mp taken
    obtain ⟨pair, flying⟩ := goroutine_eq_some.mp found
    cases stage with
    | recorded o =>
      obtain ⟨fine, done⟩ := Option.ite_none_right_eq_some.mp taken
      cases done
      exact inv.write apart pair flying fine
    | launched => cases taken
    | waiting => cases taken
    | reporting o => cases taken
  | panicked i message => exact clean.elim
  | endRound now =>
    obtain ⟨⟨-, ended, idle⟩, done⟩ := Option.ite_none_right_eq_some.mp taken
    cases done
    exact inv.endRound ended idle now
  | wake waited =>
    obtain ⟨asleep, done⟩ := Option.ite_none_right_eq_some.mp taken
    split_ifs at done
    · cases done
      exact inv.finish (inv.sleeping asleep).2
    · cases done
      exact inv.nextRound asleep
  | giveUp =>
    obtain ⟨⟨asleep, -⟩, done⟩ := Option.ite_none_right_eq_some.mp taken
    cases done
    exact inv.finish (inv.sleeping asleep).2

end

theorem Inv.run (apart : Apart job) (run : Reaches (RunState.step job) Clean (start job) s) :
    Inv job s :=
  run.invariant (inv_start job) fun _ _ _ inv clean taken => inv.step apart clean taken

end Rounds

end RunState

/-! ## What one read of the rows returns -/

/-- A read leaves rows out only when it is full. -/
theorem getRunResults_suffix (rows : List RunResult) :
    ∃ older, rows = older ++ (getRunResults rows).1 ∧
      (older ≠ [] → (getRunResults rows).1.length = runResultsCap) := by
  unfold getRunResults
  dsimp only
  by_cases many : runResultsCap < rows.length
  · have full : (rows.reverse.take (runResultsCap + 1)).length > runResultsCap := by
      rw [List.length_take, List.length_reverse]
      omega
    rw [if_pos full, List.take_take, Nat.min_eq_left (Nat.le_succ _), List.take_reverse,
      List.reverse_reverse]
    refine ⟨rows.take (rows.length - runResultsCap), (List.take_append_drop _ _).symm, fun _ => ?_⟩
    rw [List.length_drop]
    omega
  · have few : ¬ (rows.reverse.take (runResultsCap + 1)).length > runResultsCap := by
      rw [List.length_take, List.length_reverse]
      omega
    have all : rows.reverse.take (runResultsCap + 1) = rows.reverse := by
      rw [List.take_of_length_le]
      rw [List.length_reverse]
      omega
    rw [if_neg few, all, List.reverse_reverse]
    exact ⟨[], rfl, fun h => absurd rfl h⟩

/-- Rows of at most two rounds are no more than two for each pair. -/
theorem length_le_of_two_rounds {job : Job} {rows : List RunResult} {round : Nat}
    (distinct : (rows.map RunResult.slot).Nodup)
    (own : ∀ r ∈ rows, ∃ p ∈ job.pairs, r.slot = p.slot r.sampleSeq)
    (recent : ∀ r ∈ rows, r.sampleSeq = round - 1 ∨ r.sampleSeq = round) :
    rows.length ≤ 2 * job.pairs.length := by
  have listed : rows.map RunResult.slot ⊆
      job.pairs.map (Pair.slot · (round - 1)) ++ job.pairs.map (Pair.slot · round) := by
    intro slot mem
    obtain ⟨r, stored, rfl⟩ := List.mem_map.mp mem
    obtain ⟨p, planned, same⟩ := own r stored
    rw [same, List.mem_append, List.mem_map, List.mem_map]
    exact (recent r stored).imp (fun seq => ⟨p, planned, by rw [seq]⟩)
      fun seq => ⟨p, planned, by rw [seq]⟩
  have counted := (List.subperm_of_subset distinct listed).length_le
  simp only [List.length_map, List.length_append] at counted
  omega

/-- Every pair that has a row has one among those returned. -/
theorem RunState.Inv.hasRow_recent {job : Job} {s : RunState} (inv : s.Inv job)
    (few : job.pairs.length ≤ maxPairs) {r : RunResult} (mem : r ∈ s.rows) :
    ∃ r' ∈ (getRunResults s.rows).1, r'.key = r.key := by
  obtain ⟨older, split, full⟩ := getRunResults_suffix s.rows
  -- the pair's row of the round before this one, or of this one when it is the first
  obtain ⟨y, listed, key, late⟩ : ∃ y ∈ s.rows, y.key = r.key ∧ s.round - 1 ≤ y.sampleSeq := by
    obtain ⟨-, p, planned, same⟩ := inv.own r mem
    by_cases first : s.round = 0
    · exact ⟨r, mem, rfl, by omega⟩
    · obtain ⟨y, listed, slot⟩ := List.mem_map.mp
        (inv.complete (s.round - 1) (by omega) p planned)
      simp only [RunResult.slot, Pair.slot, Prod.mk.injEq] at same slot
      refine ⟨y, listed, ?_, slot.2.2.ge⟩
      rw [RunResult.key, RunResult.key, slot.1, slot.2.1, same.1, same.2.1]
  rw [split] at listed
  rcases List.mem_append.mp listed with old | new
  · -- everything returned is at least as late, so it is too little to fill a read
    have sorted := inv.sorted
    have distinct := inv.distinct
    rw [split] at sorted distinct
    rw [List.map_append] at distinct
    have recent : ∀ x ∈ (getRunResults s.rows).1,
        x.sampleSeq = s.round - 1 ∨ x.sampleSeq = s.round := by
      intro x returned
      have after := (List.pairwise_append.mp sorted).2.2 y old x returned
      have bound := (inv.own x (split ▸ List.mem_append_right _ returned)).1
      omega
    have short := length_le_of_two_rounds (List.nodup_append'.mp distinct).2.1
      (fun x returned => (inv.own x (split ▸ List.mem_append_right _ returned)).2) recent
    have size := full (List.ne_nil_of_mem old)
    simp only [runResultsCap, maxPairs] at size few
    omega
  · exact ⟨y, new, key⟩

/-! ## The two counts -/

theorem lookup_tallyOf (rows : List RunResult) (k : String) : (tallyOf rows).lookup k =
      (rows.filter (RunResult.key · = k)).getLast?.map RunResult.success := by
  rw [tallyOf, GoMap.lookup_foldl_keyed RunResult.key RunResult.success, AList.lookup_empty,
    Option.or_none]

/-- The tally of a run counts the values of its map. -/
theorem PairOutcomes.pairs_eq (o : PairOutcomes) :
    o.pairs = ((o.latest.entries.map fun e => e.2).count true,
      (o.latest.entries.map fun e => e.2).count false) := by
  have counted (l : List (Sigma fun _ : String => Bool)) (n : Nat × Nat) :
      l.foldl (fun n e => if e.2 then (n.1 + 1, n.2) else (n.1, n.2 + 1)) n =
        (n.1 + (l.map fun e => e.2).count true, n.2 + (l.map fun e => e.2).count false) := by
    induction l generalizing n with
    | nil => rfl
    | cons e l ih =>
      rw [List.foldl_cons, ih]
      cases value : e.2 <;> simp [value] <;> omega
  rw [PairOutcomes.pairs, counted, Nat.zero_add, Nat.zero_add]

def shownAs (success : Bool) : PairState := if success then .succeeded else .failed

theorem count_shownAs (l : List Bool) : (l.map shownAs).count .succeeded = l.count true ∧
      (l.map shownAs).count .failed = l.count false := by
  induction l with
  | nil => exact ⟨rfl, rfl⟩
  | cons b l ih => cases b <;> simp [shownAs, ih]

/-- A frame shows a pair that has a row, so the row replaces it. -/
theorem RunState.Inv.lookup_merged {job : Job} {s : RunState} (inv : s.Inv job)
    (few : job.pairs.length ≤ maxPairs) (idle : s.inFlight.entries = [])
    {frames : GoMap String ProgressFrame} (seen : ∀ e ∈ frames.entries, e.2 ∈ s.frames)
    (k : String) : ((mergedRows (getRunResults s.rows).1 frames).lookup k).map RunPairRow.state =
      ((tallyOf s.rows).lookup k).map shownAs := by
  have merged : (mergedRows (getRunResults s.rows).1 frames).lookup k =
      (((getRunResults s.rows).1.filter (RunResult.key · = k)).getLast?.map fromResult).or
        ((frames.entries.filter fun e => pairKey e.2.source e.2.destination = k).getLast?.map
          fun e => fromFrame e.2) := by
    refine (GoMap.lookup_foldl_keyed RunResult.key fromResult _ _ k).trans ?_
    rw [GoMap.lookup_foldl_keyed (fun e : Sigma fun _ : String => ProgressFrame =>
      pairKey e.2.source e.2.destination) (fun e => fromFrame e.2), AList.lookup_empty,
      Option.or_none]
  obtain ⟨older, split, -⟩ := getRunResults_suffix s.rows
  rw [merged, lookup_tallyOf]
  cases last : ((getRunResults s.rows).1.filter (RunResult.key · = k)).getLast? with
  | some r =>
    have newest : (s.rows.filter (RunResult.key · = k)).getLast? = some r := by
      conv_lhs => rw [split, List.filter_append, List.getLast?_append, last]
      rfl
    rw [newest]
    rfl
  | none =>
    have unread := List.getLast?_eq_none_iff.mp last
    have unstored : s.rows.filter (RunResult.key · = k) = [] := by
      refine List.filter_eq_nil_iff.mpr fun r mem same => ?_
      obtain ⟨r', returned, key⟩ := inv.hasRow_recent few mem
      refine List.filter_eq_nil_iff.mp unread r' returned ?_
      simpa [key] using same
    have unseen : (frames.entries.filter fun e => pairKey e.2.source e.2.destination = k) = [] := by
      refine List.filter_eq_nil_iff.mpr fun e mem same => ?_
      obtain ⟨i, p, -, source, destination, flies | ⟨r, stored, own⟩⟩ := inv.shown e.2 (seen e mem)
      · rw [GoMap.lookup_of_entries_nil idle] at flies
        cases flies
      · refine List.filter_eq_nil_iff.mp unstored r stored ?_
        simpa [RunResult.key, own, source, destination] using same
    rw [unstored, unseen]
    rfl

/-- The history row of a run and its detail page count the same pairs: when every result write
succeeds and every probe comes back, the numbers that close the run are those of the succeeded and
failed rows that the page builds, whichever frames it has seen. -/
theorem finishRun_agrees {spec : Spec} {nodes : List String} {job : Job}
    (planned : plan spec nodes = .ok job.pairs) (toward : spec.Toward) {s : RunState}
    (run : Reaches (RunState.step job) RunState.Clean (RunState.start job) s) {status : RunStatus}
    {pairOK pairFailed : Nat} (done : s.phase = .finished status pairOK pairFailed)
    {frames : GoMap String ProgressFrame} (seen : ∀ e ∈ frames.entries, e.2 ∈ s.frames) :
    let rows := mergeRunPairs (getRunResults s.rows).1 frames
    (rows.map RunPairRow.state).count .succeeded = pairOK ∧
      (rows.map RunPairRow.state).count .failed = pairFailed := by
  have distinct := (plan_ok planned).choose_spec.2.2.1
  have apart : RunState.Apart job := by
    intro i j p q hi hj source label
    obtain rfl := plan_label_injective planned toward (List.mem_of_getElem? hi)
      (List.mem_of_getElem? hj) source label
    exact (List.getElem?_inj (List.getElem?_eq_some_iff.mp hi).1 distinct).mp (hi.trans hj.symm)
  have inv := RunState.Inv.run apart run
  obtain ⟨idle, tally⟩ := inv.finished _ _ _ done
  have latest (k : String) : s.outcomes.latest.lookup k = (tallyOf s.rows).lookup k := by
    rcases inv.tallied k with ⟨i, o, owed, -⟩ | ⟨-, same⟩
    · have flying := owed.1
      rw [GoMap.lookup_of_entries_nil idle] at flying
      cases flying
    · exact same
  have shown := GoMap.perm_images RunPairRow.state shownAs fun k =>
    (inv.lookup_merged (length_plan_le planned) idle seen k).trans (by rw [latest])
  have values : (s.outcomes.latest.entries.map fun e => shownAs e.2) =
      (s.outcomes.latest.entries.map fun e => e.2).map shownAs := by
    rw [List.map_map]
    rfl
  have rows : ((mergeRunPairs (getRunResults s.rows).1 frames).map RunPairRow.state) =
      (mergedRows (getRunResults s.rows).1 frames).entries.map fun e => e.2.state := by
    rw [mergeRunPairs, List.map_map]
    rfl
  rw [values, ← rows] at shown
  rw [PairOutcomes.pairs_eq, Prod.mk.injEq] at tally
  dsimp only
  rw [shown.count_eq, shown.count_eq, tally.1, tally.2]
  exact count_shownAs _

/-- A minute of probes between two nodes, every thirty seconds. -/
def meshJob : Job where
  pairs := [⟨"a", nodeDestination "b"⟩, ⟨"b", nodeDestination "a"⟩]
  duration := 60 * second
  interval := 30 * second
  rounds := 2

/-- Both pairs are probed in the first round; the second round is cancelled while the first pair is
in flight. The rows of the first round are written in the other order than the outcomes. -/
def cancelledRun : List RunEvent :=
  [.dispatch, .dispatch, .advance 0, .advance 1, .probed 1 ⟨true, 5, "", false⟩,
   .probed 0 ⟨true, 7, "", false⟩, .written 0 true, .written 1 true, .advance 0, .advance 1,
   .endRound (5 * second), .wake true, .dispatch, .advance 0, .cancel true,
   .probed 0 ⟨false, 9, "context canceled", false⟩, .written 0 true, .advance 0, .stopDispatch,
   .endRound (31 * second)]

/-- A page that has seen nothing but the second pair's first frame. -/
def earlyFrame : GoMap String ProgressFrame :=
  AList.insert (pairKey "b" "a") ⟨"b", "a", .dispatched, false, 0, "", 0, 4, 0⟩ ∅

theorem finishRun_agrees_cancelledRun :
    let s := (exec (guarded (RunState.step meshJob) RunState.Clean) (RunState.start meshJob)
      cancelledRun).get (by decide)
    let rows := mergeRunPairs (getRunResults s.rows).1 earlyFrame
    s.phase = .finished .cancelled 1 1 ∧ s.rows.length = 3 ∧
      (rows.map RunPairRow.state).count .succeeded = 1 ∧
      (rows.map RunPairRow.state).count .failed = 1 := by
  have planned : plan { type := "tcp" } ["a", "b"] = .ok meshJob.pairs := by decide
  intro s rows
  have run : Reaches (RunState.step meshJob) RunState.Clean (RunState.start meshJob) s :=
    .of_exec (Option.some_get _).symm
  have done : s.phase = .finished .cancelled 1 1 := by decide
  exact ⟨done, by decide, finishRun_agrees planned (Or.inl rfl) run done (by decide)⟩

/-- A probe that panics is outside of this: the pair counts as failed and has no row. -/
example : ((exec (RunState.step meshJob) (RunState.start meshJob)
    [.dispatch, .advance 0, .panicked 0 "nil map", .cancel true, .stopDispatch, .endRound 0]).map
      fun s => (s.phase, s.rows)) = some (.finished .cancelled 0 1, []) := by decide

end Kconmon.Console.Checks
