import Kconmon.Agent.Metrics
import Mathlib.Algebra.Order.Ring.Rat
import Mathlib.Data.List.Induction
import Mathlib.Order.Bounds.Defs

/-!
# The sizes that pairs are probed at

An agent publishes the probe size of every pair and, for every source, the largest of them. It keeps
a map of the sizes beside the gauges, because a gauge cannot be read back. Series are deleted by a
set of labels: the library matches them against the gauges, the agent against its map.
-/
namespace Kconmon.Agent
open Lib

def peerLabels : List String :=
    ["source_node", "destination_node", "source_zone", "destination_zone"]

def Pair.values (p : Pair) : List String :=
  [p.sourceNode, p.destinationNode, p.sourceZone, p.destinationZone]

/-- Which series of a family with the peer labels `DeletePartialMatch` deletes. The metrics library
documents this much: those that have all the labels given, with their values. -/
structure PartialMatch where
  test : Pair → GoMap String String → Bool
  documented : ∀ key labels, test key labels = true ↔
    ∀ name v, labels.lookup name = some v → (name, v) ∈ peerLabels.zip key.values

/-- The loop over the peer labels; `none` is a label that differs. -/
def countMatched (labels : GoMap String String) : List (String × String) → Nat → Option Nat
  | [], matched => some matched
  | (name, value) :: rest, matched =>
    match labels.lookup name with
    | some wanted => if value ≠ wanted then none else countMatched labels rest (matched + 1)
    | none => countMatched labels rest matched

def pmtuProbeMatches (key : Pair) (labels : GoMap String String) : Bool :=
  countMatched labels (peerLabels.zip key.values) 0 = some labels.entries.length

structure ProbeSizes where
  /-- `PMTUProbeBytes` -/
  pairs : GoMap Pair ℚ := ∅
  /-- `AgentPMTUProbeBytes`, by source. -/
  agents : GoMap String ℚ := ∅
  /-- `pmtuProbe` -/
  sizes : GoMap Pair ℚ := ∅

namespace ProbeSizes

/-- The loop for the largest size of a source; the flag says that there is one. -/
def biggest (source : String) (acc : ℚ × Bool) (e : Sigma fun _ : Pair => ℚ) : ℚ × Bool :=
  if e.1.sourceNode = source ∧ (!acc.2 ∨ e.2 > acc.1) then (e.2, true) else acc

def refresh (ord : RangeOrder) (s : ProbeSizes) (source : String) : ProbeSizes :=
  let largest := (ord.visit 0 s.sizes.entries).foldl (biggest source) (0, false)
  { s with agents := if largest.2 then s.agents.insert source largest.1 else s.agents.erase source }

def setPMTUProbe (ord : RangeOrder) (s : ProbeSizes) (labels : Pair) (size : ℚ) : ProbeSizes :=
  refresh ord { s with
    pairs := s.pairs.insert labels size, sizes := s.sizes.insert labels size } labels.sourceNode

/-- One iteration of the loop that deletes what matches and notes the sources. -/
def drop (labels : GoMap String String) (acc : GoMap Pair ℚ × GoMap String Unit)
    (e : Sigma fun _ : Pair => ℚ) : GoMap Pair ℚ × GoMap String Unit :=
  if pmtuProbeMatches e.1 labels then (acc.1.erase e.1, acc.2.insert e.1.sourceNode ()) else acc

def forgetPMTUProbe (lib : PartialMatch) (ord : RangeOrder) (s : ProbeSizes)
    (labels : GoMap String String) : ProbeSizes :=
  let dropped := (ord.visit 1 s.sizes.entries).foldl (drop labels) (s.sizes, ∅)
  let s := { s with
    pairs := s.pairs.sieveKeys fun p => !lib.test p labels, sizes := dropped.1 }
  (ord.visit 2 dropped.2.entries).foldl (fun s e => s.refresh ord e.1) s

def forgetPlane (s : ProbeSizes) (checkType : String) : ProbeSizes :=
  if checkType = "pmtu" then { pairs := ∅, agents := ∅, sizes := ∅ } else s

/-! ## Matching -/

theorem countMatched_eq (labels : GoMap String String) (l : List (String × String)) (n : Nat) :
    countMatched labels l n =
      if ∀ x ∈ l, ∀ v, labels.lookup x.1 = some v → x.2 = v then
        some (n + (l.filter fun x => x.1 ∈ labels.keys).length) else none := by
  induction l generalizing n with
  | nil => simp [countMatched]
  | cons x l ih =>
    obtain ⟨name, value⟩ := x
    have listed : name ∈ labels.keys ↔ (labels.lookup name).isSome := AList.lookup_isSome.symm
    rw [countMatched]
    cases found : labels.lookup name with
    | none => grind
    | some wanted =>
      have here : name ∈ labels.keys := listed.mpr (by simp [found])
      by_cases same : value = wanted
      · have tail : (∀ x ∈ (name, value) :: l, ∀ v, labels.lookup x.1 = some v → x.2 = v) ↔
            ∀ x ∈ l, ∀ v, labels.lookup x.1 = some v → x.2 = v := by simp [found, same]
        simp only [ih, ne_eq, same, not_true_eq_false, if_false, List.filter_cons, here,
          decide_true, if_true, List.length_cons]
        grind
      · simp [found, same]

/-- The agent and the library match the same series: the loop meets every label exactly if all of
them are peer labels. -/
theorem pmtuProbeMatches_eq (lib : PartialMatch) (key : Pair) (labels : GoMap String String) :
    pmtuProbeMatches key labels = lib.test key labels := by
  rw [Bool.eq_iff_iff, lib.documented, pmtuProbeMatches, decide_eq_true_eq, countMatched_eq]
  have names : (peerLabels.zip key.values).map Prod.fst = peerLabels := rfl
  generalize peerLabels.zip key.values = pairs at names ⊢
  have distinct : (pairs.map Prod.fst).Nodup := names ▸ by decide
  let met := (pairs.filter fun x => x.1 ∈ labels.keys).map Prod.fst
  have own : met.Nodup := (List.filter_sublist.map _).nodup distinct
  have within : met ⊆ labels.keys := by grind
  have fits := List.subperm_of_subset own within
  have count : met.length = (pairs.filter fun x => x.1 ∈ labels.keys).length := List.length_map ..
  have size : labels.entries.length = labels.keys.length := by simp [AList.keys, List.keys]
  rw [Option.ite_none_right_eq_some, Option.some.injEq, Nat.zero_add, ← count, size]
  constructor
  · rintro ⟨same, all⟩ name v found
    have listed : name ∈ labels.keys := AList.lookup_isSome.mp (by simp [found])
    have known := (fits.perm_of_length_le all.ge).mem_iff.mpr listed
    obtain ⟨x, mem, rfl⟩ := List.mem_map.mp known
    exact same x (List.mem_of_mem_filter mem) v found ▸ List.mem_of_mem_filter mem
  · intro all
    refine ⟨fun x listed v found => ?_, le_antisymm fits.length_le ?_⟩
    · exact congrArg Prod.snd (List.inj_on_of_nodup_map distinct listed (all x.1 v found) rfl)
    · refine (List.subperm_of_subset labels.keys_nodup fun name listed => ?_).length_le
      obtain ⟨v, found⟩ := Option.isSome_iff_exists.mp (AList.lookup_isSome.mpr listed)
      exact List.mem_map.mpr ⟨(name, v), by simp [all name v found, listed], rfl⟩

/-! ## The largest size -/

/-- The sizes of a source. -/
def Sizes (sizes : GoMap Pair ℚ) (source : String) : Set ℚ :=
  {size | ∃ p, sizes.lookup p = some size ∧ p.sourceNode = source}

/-- The gauge is there exactly if the source has sizes, and then it is the largest. -/
def Shows (sizes : GoMap Pair ℚ) (source : String) (gauge : Option ℚ) : Prop :=
  (gauge.isSome ↔ (Sizes sizes source).Nonempty) ∧
    ∀ v, gauge = some v → IsGreatest (Sizes sizes source) v

theorem biggest_spec (source : String) (l : List (Sigma fun _ : Pair => ℚ)) :
    ((l.foldl (biggest source) (0, false)).2 = true ↔ ∃ e ∈ l, e.1.sourceNode = source) ∧
      ((l.foldl (biggest source) (0, false)).2 = true →
        (∃ e ∈ l, e.1.sourceNode = source ∧ e.2 = (l.foldl (biggest source) (0, false)).1) ∧
        ∀ e ∈ l, e.1.sourceNode = source → e.2 ≤ (l.foldl (biggest source) (0, false)).1) := by
  induction l using List.reverseRecOn with
  | nil => simp
  | append_singleton l e ih =>
    rw [List.foldl_append, List.foldl_cons, List.foldl_nil]
    generalize l.foldl (biggest source) (0, false) = acc at ih ⊢
    unfold biggest
    grind

theorem lookup_refresh (ord : RangeOrder) (s : ProbeSizes) (source other : String) :
    (other = source → Shows s.sizes source ((s.refresh ord source).agents.lookup other)) ∧
      (other ≠ source → (s.refresh ord source).agents.lookup other = s.agents.lookup other) := by
  have spec := biggest_spec source (ord.visit 0 s.sizes.entries)
  have entry : ∀ p size, s.sizes.lookup p = some size ↔ ⟨p, size⟩ ∈ s.sizes.entries :=
    fun p size => AList.mem_lookup_iff
  have holds : ∀ size, size ∈ Sizes s.sizes source ↔
      ∃ e ∈ ord.visit 0 s.sizes.entries, e.1.sourceNode = source ∧ e.2 = size := by
    intro size
    simp only [Sizes, Set.mem_ofPred_eq, entry, RangeOrder.mem_visit]
    constructor
    · rintro ⟨p, listed, own⟩
      exact ⟨⟨p, size⟩, listed, own, rfl⟩
    · rintro ⟨e, listed, own, rfl⟩
      exact ⟨e.1, listed, own⟩
  simp only [refresh, Shows, IsGreatest, upperBounds, Set.Nonempty, Set.mem_ofPred_eq, holds]
  generalize (ord.visit 0 s.sizes.entries).foldl (biggest source) (0, false) = acc at spec ⊢
  grind

theorem Shows.congr {sizes sizes' : GoMap Pair ℚ} {source : String} {gauge : Option ℚ}
    (shows : Shows sizes source gauge) (same : Sizes sizes' source = Sizes sizes source) :
    Shows sizes' source gauge := by
  rwa [Shows, same]

/-! ## Runs -/

/-- The map and the gauges hold the same sizes, and every source shows its largest. -/
structure Consistent (s : ProbeSizes) : Prop where
  same : ∀ p, s.pairs.lookup p = s.sizes.lookup p
  shows : ∀ source, Shows s.sizes source (s.agents.lookup source)

/-- A refresh makes good for one source. -/
theorem shows_refresh {ord : RangeOrder} {s : ProbeSizes} {source : String} {P : String → Prop}
    (others : ∀ other, ¬ P other → Shows s.sizes other (s.agents.lookup other)) (other : String)
    (settled : other = source ∨ ¬ P other) :
    Shows s.sizes other ((s.refresh ord source).agents.lookup other) := by
  obtain ⟨own, keeps⟩ := lookup_refresh ord s source other
  by_cases here : other = source
  · exact here ▸ own here
  · rw [keeps here]
    exact others other (settled.resolve_left here)

theorem Consistent.setPMTUProbe {s : ProbeSizes} (consistent : s.Consistent) (ord : RangeOrder)
    (labels : Pair) (size : ℚ) : (s.setPMTUProbe ord labels size).Consistent where
  same p := by
    have := consistent.same p
    change (AList.insert labels size s.pairs).lookup p = (AList.insert labels size s.sizes).lookup p
    grind
  shows source := by
    refine shows_refresh (P := (· = labels.sourceNode)) (fun other differ => ?_) source
      (Classical.em _)
    refine (consistent.shows other).congr (Set.ext fun v => exists_congr fun p => ?_)
    grind

theorem dropped_spec (labels : GoMap String String) (l : List (Sigma fun _ : Pair => ℚ))
    (acc : GoMap Pair ℚ × GoMap String Unit) : (∀ p, (l.foldl (drop labels) acc).1.lookup p =
      if pmtuProbeMatches p labels ∧ p ∈ l.map Sigma.fst then none else acc.1.lookup p) ∧
    ∀ source, ((l.foldl (drop labels) acc).2.lookup source).isSome ↔ (acc.2.lookup source).isSome ∨
        ∃ e ∈ l, pmtuProbeMatches e.1 labels ∧ e.1.sourceNode = source := by
  induction l generalizing acc with
  | nil => simp
  | cons e l ih =>
    obtain ⟨sizes, touched⟩ := ih (drop labels acc e)
    rw [List.foldl_cons]
    simp only [sizes, touched]
    unfold drop
    constructor <;> grind

/-- Refreshing the sources that are out of date makes good for all. -/
theorem shows_refreshes (ord : RangeOrder) (l : List (Sigma fun _ : String => Unit))
    (s : ProbeSizes)
    (others : ∀ other, other ∉ l.map Sigma.fst → Shows s.sizes other (s.agents.lookup other)) :
    (l.foldl (fun s e => s.refresh ord e.1) s).pairs = s.pairs ∧
    (l.foldl (fun s e => s.refresh ord e.1) s).sizes = s.sizes ∧ ∀ other, Shows s.sizes other
      ((l.foldl (fun s e => s.refresh ord e.1) s).agents.lookup other) := by
  induction l generalizing s with
  | nil => exact ⟨rfl, rfl, fun other => others other (by simp)⟩
  | cons e l ih =>
    refine ih (s.refresh ord e.1) fun other later => ?_
    exact shows_refresh (P := (· ∈ (e :: l).map Sigma.fst)) others other (by grind)

theorem Consistent.forgetPMTUProbe {s : ProbeSizes} (consistent : s.Consistent) (lib : PartialMatch)
    (ord : RangeOrder) (labels : GoMap String String) :
    (s.forgetPMTUProbe lib ord labels).Consistent := by
  obtain ⟨sizes, touched⟩ := dropped_spec labels (ord.visit 1 s.sizes.entries) (s.sizes, ∅)
  have listed : ∀ p, p ∈ (ord.visit 1 s.sizes.entries).map Sigma.fst ↔
      (s.sizes.lookup p).isSome := by
    intro p
    rw [((ord.perm 1 _).map _).mem_iff]
    exact AList.lookup_isSome.symm
  unfold ProbeSizes.forgetPMTUProbe
  dsimp only
  generalize (ord.visit 1 s.sizes.entries).foldl (drop labels) (s.sizes, ∅) = dropped
    at sizes touched ⊢
  obtain ⟨pairs', sizes', shows⟩ := shows_refreshes ord (ord.visit 2 dropped.2.entries)
    { s with pairs := s.pairs.sieveKeys fun p => !lib.test p labels
             sizes := dropped.1 } fun other untouched => by
      refine (consistent.shows other).congr (Set.ext fun v => exists_congr fun p => ?_)
      rw [((ord.perm 2 _).map _).mem_iff] at untouched
      have none_noted := mt (fun noted => AList.lookup_isSome.mp noted) untouched
      rw [touched] at none_noted
      simp only [sizes, listed]
      grind
  refine ⟨fun p => ?_, fun source => ?_⟩
  · have before := consistent.same p
    rw [pairs', sizes']
    simp only [sizes, listed, GoMap.lookup_sieveKeys, pmtuProbeMatches_eq lib, before]
    cases s.sizes.lookup p <;> grind
  · rw [sizes']
    exact shows source

/-- A call, with the orders in which it visits the maps. -/
inductive Call where
  | setPMTUProbe (ord : RangeOrder) (labels : Pair) (size : ℚ)
  | forgetPMTUProbe (ord : RangeOrder) (labels : GoMap String String)
  | forgetPlane (checkType : String)

def call (lib : PartialMatch) (s : ProbeSizes) : Call → ProbeSizes
  | .setPMTUProbe ord labels size => s.setPMTUProbe ord labels size
  | .forgetPMTUProbe ord labels => s.forgetPMTUProbe lib ord labels
  | .forgetPlane checkType => s.forgetPlane checkType

/-- After any calls the gauges hold what the map holds, and a source has a gauge exactly if it has
sizes, which is the largest of them. -/
theorem probeSizes_consistent (lib : PartialMatch) (calls : List Call) :
    (∀ p, (calls.foldl (call lib) {}).pairs.lookup p = (calls.foldl (call lib) {}).sizes.lookup p) ∧
    ∀ source, (((calls.foldl (call lib) {}).agents.lookup source).isSome ↔
        ∃ p size, (calls.foldl (call lib) {}).pairs.lookup p = some size ∧ p.sourceNode = source) ∧
      ∀ v, (calls.foldl (call lib) {}).agents.lookup source = some v →
        IsGreatest {size | ∃ p, (calls.foldl (call lib) {}).pairs.lookup p = some size ∧
          p.sourceNode = source} v := by
  have empty : Consistent {} := ⟨fun _ => rfl, fun source => by simp [Shows, Sizes, Set.Nonempty]⟩
  obtain ⟨same, shows⟩ : (calls.foldl (call lib) {}).Consistent := by
    refine foldl_invariant (I := Consistent) empty fun s c _ consistent => ?_
    cases c with
    | setPMTUProbe ord labels size => exact consistent.setPMTUProbe ord labels size
    | forgetPMTUProbe ord labels => exact consistent.forgetPMTUProbe lib ord labels
    | forgetPlane checkType =>
      rw [call, forgetPlane]
      split
      · exact empty
      · exact consistent
  refine ⟨same, fun source => ?_⟩
  simp only [same]
  exact ⟨(shows source).1.trans exists_comm, (shows source).2⟩

/-- The rule as a test. -/
def byLabels : PartialMatch where
  test key labels := labels.entries.all fun e => (peerLabels.zip key.values).contains (e.1, e.2)
  documented key labels := by
    simp only [List.all_eq_true, List.contains_iff_mem]
    exact ⟨fun all name v found => all ⟨name, v⟩ (AList.mem_lookup_iff.mp found),
      fun all e listed => all e.1 e.2 (AList.mem_lookup_iff.mpr listed)⟩

/-- Two pairs of one source, of which the larger goes. -/
example :
    let calls := [.setPMTUProbe .stored ⟨"n1", "n2", "z1", "z1"⟩ 1400,
      .setPMTUProbe .stored ⟨"n1", "n3", "z1", "z2"⟩ 8900,
      .forgetPMTUProbe .stored (AList.insert "destination_node" "n3" ∅)]
    ((calls.take 2).foldl (call byLabels) {}).agents.lookup "n1" = some 8900 ∧
      (calls.foldl (call byLabels) {}).agents.lookup "n1" = some 1400 := by
  decide

end ProbeSizes

end Kconmon.Agent
