import Kconmon.Console.Checks
import Mathlib.Data.List.Perm.Basic

/-!
# The order of a round

`interleaveBySource` takes one pair of each source in turn. Its indices are those
of the whole list, each once (`perm_interleaveBySource`), and the sources it goes
through are `sourceOrder` over and over, each as often as it has pairs
(`sources_interleaved`). So no prefix of the order favours a source that has
pairs left (`interleaveBySource_fair`).
-/
namespace Kconmon.Console.Checks
open Lib

/-- How many pairs a source has. -/
def load (pairs : List Pair) (src : String) : Nat := pairs.countP (·.source = src)

/-- The sources in the order in which they first appear. -/
def sourceOrder (pairs : List Pair) : List String := (bySource pairs).order

def indicesOf (pairs : List Pair) (src : String) : List Nat :=
  (pairs.zipIdx.filter (·.1.source = src)).map Prod.snd

variable {pairs : List Pair} {src : String} {i : Nat}

theorem mem_indicesOf : i ∈ indicesOf pairs src ↔ ∃ p, pairs[i]? = some p ∧ p.source = src := by
  simp only [indicesOf, List.mem_map, List.mem_filter, decide_eq_true_eq, Prod.exists,
    List.mem_zipIdx_iff_getElem?]
  constructor
  · rintro ⟨p, j, ⟨at_j, same⟩, rfl⟩
    exact ⟨p, at_j, same⟩
  · rintro ⟨p, at_i, same⟩
    exact ⟨p, i, ⟨at_i, same⟩, rfl⟩

theorem nodup_indicesOf (pairs : List Pair) (src : String) : (indicesOf pairs src).Nodup := by
  have all : (pairs.zipIdx.map Prod.snd).Nodup := by
    rw [List.zipIdx_map_snd]
    exact List.nodup_range'
  exact all.sublist (List.filter_sublist.map Prod.snd)

theorem length_indicesOf (pairs : List Pair) (src : String) :
    (indicesOf pairs src).length = load pairs src := by
  have plain : pairs.zipIdx.countP ((fun p : Pair => decide (p.source = src)) ∘ Prod.fst) =
      load pairs src := by
    rw [← List.countP_map, List.zipIdx_map_fst]
    rfl
  rw [indicesOf, List.length_map, ← List.countP_eq_length_filter, ← plain]
  rfl

/-! ## Grouping -/

/-- The accumulators after the entries of `l`. -/
structure BySource.Holds (b : BySource) (l : List (Pair × Nat)) : Prop where
  indices : ∀ src, (b.indices.lookup src).getD [] = (l.filter (·.1.source = src)).map Prod.snd
  known : ∀ src, (b.indices.lookup src).isSome ↔ src ∈ b.order
  order : ∀ src, src ∈ b.order ↔ ∃ x ∈ l, x.1.source = src
  distinct : b.order.Nodup

theorem BySource.Holds.add {b : BySource} {l : List (Pair × Nat)} (h : b.Holds l) (x : Pair × Nat) :
    (b.add x).Holds (l ++ [x]) := by
  have order : ∀ src, src ∈ (b.add x).order ↔ src ∈ b.order ∨ src = x.1.source := by
    intro src
    unfold BySource.add
    by_cases seen : (b.indices.lookup x.1.source).isSome = true
    · have old := (h.known _).mp seen
      simp only [seen, if_true]
      grind
    · simp [seen]
  refine ⟨fun src => ?_, fun src => ?_, fun src => ?_, ?_⟩
  · rw [List.filter_append, List.map_append, ← h.indices]
    simp only [BySource.add, GoMap.lookup_insert_if]
    by_cases same : src = x.1.source
    · subst same
      simp
    · simp [same, Ne.symm same]
  · rw [order, ← h.known]
    simp only [BySource.add, GoMap.lookup_insert_if]
    by_cases same : src = x.1.source <;> simp [same]
  · rw [order, h.order]
    simp only [List.mem_append, List.mem_singleton, or_and_right, exists_or, exists_eq_left,
      eq_comm (a := src)]
  · unfold BySource.add
    by_cases seen : (b.indices.lookup x.1.source).isSome = true
    · simpa [seen] using h.distinct
    · have fresh : x.1.source ∉ b.order := fun old => seen ((h.known _).mpr old)
      simp only [seen]
      exact List.nodup_append'.mpr ⟨h.distinct, by simp, by simpa using fresh⟩

theorem BySource.Holds.foldl {b : BySource} {l : List (Pair × Nat)} (h : b.Holds l)
    (rest : List (Pair × Nat)) : (rest.foldl BySource.add b).Holds (l ++ rest) := by
  induction rest generalizing b l with
  | nil => simpa using h
  | cons x rest ih =>
    have := ih (h.add x)
    rwa [List.append_assoc] at this

theorem holds_bySource (pairs : List Pair) : (bySource pairs).Holds pairs.zipIdx := by
  have start : ({} : BySource).Holds [] := ⟨by simp, by simp, by simp, by simp⟩
  exact start.foldl pairs.zipIdx

theorem lookup_bySource (pairs : List Pair) (src : String) :
    ((bySource pairs).indices.lookup src).getD [] = indicesOf pairs src :=
  (holds_bySource pairs).indices src

theorem nodup_sourceOrder (pairs : List Pair) : (sourceOrder pairs).Nodup :=
  (holds_bySource pairs).distinct

theorem mem_sourceOrder : src ∈ sourceOrder pairs ↔ ∃ p ∈ pairs, p.source = src := by
  rw [sourceOrder, (holds_bySource pairs).order]
  constructor
  · rintro ⟨⟨p, i⟩, mem, same⟩
    exact ⟨p, List.mem_of_getElem? (List.mem_zipIdx_iff_getElem?.mp mem), same⟩
  · rintro ⟨p, mem, same⟩
    obtain ⟨i, at_i⟩ := List.getElem?_of_mem mem
    exact ⟨(p, i), List.mem_zipIdx_iff_getElem?.mpr at_i, same⟩

theorem load_pos_iff : 0 < load pairs src ↔ src ∈ sourceOrder pairs := by
  rw [mem_sourceOrder, load, List.countP_pos_iff]
  simp

/-! ## Interleaving -/

variable {n : Nat}

theorem flatMap_getElem?_range {α : Type*} (row : List α) (short : row.length ≤ n) :
    ((List.range n).flatMap fun c => (row[c]?).toList) = row := by
  induction row generalizing n with
  | nil => simp
  | cons x row ih =>
    obtain _ | n := n
    · simp at short
    · rw [List.range_succ_eq_map, List.flatMap_cons, List.flatMap_map]
      simp only [List.getElem?_cons_zero, List.getElem?_cons_succ, Option.toList_some,
        List.singleton_append, Nat.succ_eq_add_one]
      rw [ih (by simpa using short)]

/-- Reading a table of rows column by column. -/
theorem flatMap_columns_perm {α : Type*} (rows : List (List α))
    (wide : ∀ row ∈ rows, row.length ≤ n) :
    ((List.range n).flatMap fun c => rows.filterMap (·[c]?)).Perm rows.flatten := by
  induction rows with
  | nil => simp
  | cons row rows ih =>
    have columns : ∀ c : Nat, (row :: rows).filterMap (·[c]?) =
        (row[c]?).toList ++ rows.filterMap (·[c]?) := by
      intro c
      cases h : row[c]? <;> simp [h]
    simp only [columns]
    refine (List.flatMap_append_perm _ _ _).symm.trans ?_
    rw [flatMap_getElem?_range row (wide row (by simp))]
    exact (ih fun r hr => wide r (List.mem_cons_of_mem _ hr)).append_left row

theorem round_bySource (pairs : List Pair) (r : Nat) :
    (bySource pairs).round r = (sourceOrder pairs).filterMap fun src => (indicesOf pairs src)[r]? :=
      by
  simp only [BySource.round, lookup_bySource]
  rfl

theorem load_le_length (pairs : List Pair) (src : String) : load pairs src ≤ pairs.length :=
  List.countP_le_length

/-- All rounds, one after the other. -/
theorem perm_rounds (pairs : List Pair) (enough : pairs.length ≤ n) :
    ((List.range n).flatMap (bySource pairs).round).Perm (List.range pairs.length) := by
  have wide : ∀ row ∈ (sourceOrder pairs).map (indicesOf pairs), row.length ≤ n := by
    simpa [length_indicesOf] using fun src _ => (load_le_length pairs src).trans enough
  have columns := flatMap_columns_perm ((sourceOrder pairs).map (indicesOf pairs)) wide
  have same : ∀ r, (bySource pairs).round r =
      ((sourceOrder pairs).map (indicesOf pairs)).filterMap (·[r]?) := by
    intro r
    rw [round_bySource, List.filterMap_map]
    rfl
  rw [funext same]
  refine columns.trans ((List.perm_ext_iff_of_nodup ?_ List.nodup_range).mpr fun i => ?_)
  · rw [← List.flatMap_def, List.nodup_flatMap]
    refine ⟨fun src _ => nodup_indicesOf pairs src, (nodup_sourceOrder pairs).imp ?_⟩
    intro a b differ i in_a in_b
    obtain ⟨p, at_p, of_a⟩ := mem_indicesOf.mp in_a
    obtain ⟨q, at_q, of_b⟩ := mem_indicesOf.mp in_b
    grind
  · rw [← List.flatMap_def, List.mem_flatMap, List.mem_range]
    constructor
    · rintro ⟨src, -, mem⟩
      obtain ⟨p, at_i, -⟩ := mem_indicesOf.mp mem
      exact (List.getElem?_eq_some_iff.mp at_i).1
    · intro bound
      have at_i : pairs[i]? = some pairs[i] := List.getElem?_eq_getElem bound
      exact ⟨pairs[i].source, mem_sourceOrder.mpr ⟨_, List.getElem_mem bound, rfl⟩,
        mem_indicesOf.mpr ⟨_, at_i, rfl⟩⟩

/-- The loop that stops early misses nothing: the rounds it leaves out are empty. -/
theorem interleave_eq (b : BySource) {total : Nat} (fuel round : Nat)
    (complete : ((List.range (round + fuel)).flatMap b.round).length ≤ total) :
    b.interleave total fuel round ((List.range round).flatMap b.round) =
      (List.range (round + fuel)).flatMap b.round := by
  induction fuel generalizing round with
  | zero => rfl
  | succ fuel ih =>
    have next : (List.range round).flatMap b.round ++ b.round round =
        (List.range (round + 1)).flatMap b.round := by
      rw [List.range_succ, List.flatMap_append, List.flatMap_singleton]
    have shift : round + 1 + fuel = round + (fuel + 1) := by omega
    unfold BySource.interleave
    split
    · rw [next, ih (round + 1) (by rwa [shift]), shift]
    · rename_i out
      have split_at : List.range (round + (fuel + 1)) =
          List.range round ++ (List.range (fuel + 1)).map (round + ·) := List.range_add ..
      rw [split_at, List.flatMap_append, List.length_append] at complete
      have rest : ((List.range (fuel + 1)).map (round + ·)).flatMap b.round = [] :=
        List.eq_nil_of_length_eq_zero (by omega)
      rw [split_at, List.flatMap_append, rest, List.append_nil]

/-- The loop with enough rounds. -/
theorem interleave_rounds (pairs : List Pair) {fuel : Nat} (enough : pairs.length ≤ fuel) :
    (bySource pairs).interleave pairs.length fuel 0 [] =
      (List.range fuel).flatMap (bySource pairs).round := by
  have all : ((List.range (0 + fuel)).flatMap (bySource pairs).round).length ≤ pairs.length := by
    rw [Nat.zero_add, (perm_rounds pairs enough).length_eq, List.length_range]
  have looped := interleave_eq (bySource pairs) fuel 0 all
  rwa [Nat.zero_add] at looped

theorem interleaveBySource_eq (pairs : List Pair) :
    interleaveBySource pairs = (List.range pairs.length).flatMap (bySource pairs).round :=
  interleave_rounds pairs le_rfl

theorem perm_interleaveBySource (pairs : List Pair) :
    (interleaveBySource pairs).Perm (List.range pairs.length) := by
  rw [interleaveBySource_eq]
  exact perm_rounds pairs le_rfl

theorem sourceAt_of_mem (mem : i ∈ indicesOf pairs src) : sourceAt pairs i = src := by
  obtain ⟨p, at_i, same⟩ := mem_indicesOf.mp mem
  simp [sourceAt, at_i, same]

/-- The sources a round goes through: those with pairs left. -/
theorem sources_round (pairs : List Pair) (r : Nat) :
    ((bySource pairs).round r).map (sourceAt pairs) =
      (sourceOrder pairs).filter (r < load pairs ·) := by
  rw [round_bySource]
  induction sourceOrder pairs with
  | nil => rfl
  | cons src order ih =>
    by_cases more : r < load pairs src
    · have bound : r < (indicesOf pairs src).length := by rwa [length_indicesOf]
      have of_src := sourceAt_of_mem (List.getElem_mem bound)
      simp [List.getElem?_eq_getElem bound, of_src, ih, more]
    · have out : (indicesOf pairs src)[r]? = none := by
        rw [List.getElem?_eq_none_iff, length_indicesOf]
        omega
      simp [out, ih, more]

theorem sources_interleaved (pairs : List Pair) : (interleaveBySource pairs).map (sourceAt pairs) =
      (List.range pairs.length).flatMap fun r => (sourceOrder pairs).filter (r < load pairs ·) := by
  rw [interleaveBySource_eq, List.map_flatMap]
  simp only [sources_round]

/-! ## Fairness -/

theorem pairwise_indicesOf (pairs : List Pair) (src : String) :
    (indicesOf pairs src).Pairwise (· < ·) := by
  have all : (pairs.zipIdx.map Prod.snd).Pairwise (· < ·) := by
    rw [List.zipIdx_map_snd]
    exact List.pairwise_lt_range'
  exact all.sublist (List.filter_sublist.map Prod.snd)

theorem mem_round {r : Nat} (mem : i ∈ (bySource pairs).round r) :
    (indicesOf pairs (sourceAt pairs i))[r]? = some i := by
  rw [round_bySource, List.mem_filterMap] at mem
  obtain ⟨src, -, at_r⟩ := mem
  rwa [sourceAt_of_mem (List.mem_of_getElem? at_r)]

/-- The pairs of one source keep their order. -/
theorem pairwise_interleaveBySource (pairs : List Pair) :
    (interleaveBySource pairs).Pairwise fun i j => sourceAt pairs i = sourceAt pairs j → i < j := by
  rw [interleaveBySource_eq, List.pairwise_flatMap]
  constructor
  · -- A round has no source twice.
    intro r _
    have sources : (((bySource pairs).round r).map (sourceAt pairs)).Nodup := by
      rw [sources_round]
      exact (nodup_sourceOrder pairs).filter _
    exact (List.pairwise_map.mp sources).imp fun differ same => absurd same differ
  · refine List.pairwise_lt_range.imp ?_
    intro r r' later i in_r j in_r' same
    have at_i := mem_round in_r
    have at_j := mem_round in_r'
    rw [same] at at_i
    obtain ⟨bound_i, own_i⟩ := List.getElem?_eq_some_iff.mp at_i
    obtain ⟨bound_j, own_j⟩ := List.getElem?_eq_some_iff.mp at_j
    have before := List.pairwise_iff_getElem.mp (pairwise_indicesOf pairs _) r r' bound_i bound_j
      later
    rwa [own_i, own_j] at before

/-- A part of a list made in rounds is some whole rounds and a part of the next one. -/
theorem take_flatMap_range {α : Type*} (round : Nat → List α) (total n : Nat) :
    ∃ whole m, ((List.range total).flatMap round).take n =
      (List.range whole).flatMap round ++ (round whole).take m := by
  induction total with
  | zero => exact ⟨0, 0, by simp⟩
  | succ total ih =>
    rw [List.range_succ, List.flatMap_append, List.flatMap_singleton, List.take_append]
    by_cases inside : n ≤ ((List.range total).flatMap round).length
    · obtain ⟨whole, m, same⟩ := ih
      exact ⟨whole, m, by rw [same, Nat.sub_eq_zero_of_le inside]; simp⟩
    · exact ⟨total, _, by rw [List.take_of_length_le (by omega)]⟩

theorem count_round (pairs : List Pair) (src : String) (r : Nat) :
    ((sourceOrder pairs).filter (r < load pairs ·)).count src =
      if r < load pairs src then 1 else 0 := by
  have once : r < load pairs src → src ∈ sourceOrder pairs := by
    intro more
    exact load_pos_iff.mp (by omega)
  rw [((nodup_sourceOrder pairs).filter _).count]
  simp only [List.mem_filter, decide_eq_true_eq]
  grind

/-- After whole rounds a source has had one pair in each of them, or all its pairs. -/
theorem count_rounds (pairs : List Pair) (src : String) (whole : Nat) :
    ((List.range whole).flatMap fun r => (sourceOrder pairs).filter (r < load pairs ·)).count src =
      min whole (load pairs src) := by
  induction whole with
  | zero => simp
  | succ whole ih =>
    rw [List.range_succ, List.flatMap_append, List.flatMap_singleton, List.count_append, ih,
      count_round]
    split <;> omega

/-- How many of the first `n` dispatches go to a source. -/
def takenFrom (pairs : List Pair) (n : Nat) (src : String) : Nat :=
  ((interleaveBySource pairs).take n).countP (sourceAt pairs · = src)

theorem takenFrom_bounds (pairs : List Pair) (n : Nat) : ∃ whole, ∀ src,
    min whole (load pairs src) ≤ takenFrom pairs n src ∧
      takenFrom pairs n src ≤ min (whole + 1) (load pairs src) := by
  have counted : ∀ src, takenFrom pairs n src =
      (((List.range pairs.length).flatMap fun r =>
        (sourceOrder pairs).filter (r < load pairs ·)).take n).count src := by
    intro src
    rw [← sources_interleaved, ← List.map_take, List.count, List.countP_map]
    rfl
  obtain ⟨whole, m, same⟩ := take_flatMap_range
    (fun r => (sourceOrder pairs).filter (r < load pairs ·)) pairs.length n
  refine ⟨whole, fun src => ?_⟩
  have all := (List.take_sublist n ((List.range pairs.length).flatMap fun r =>
    (sourceOrder pairs).filter (r < load pairs ·))).count_le src
  rw [count_rounds, same] at all
  rw [counted, same]
  rw [List.count_append, count_rounds] at all ⊢
  have part := ((List.take_sublist m _).count_le src).trans_eq
    (count_round pairs src whole)
  split at part <;> omega

/-- The dispatch order is a fair interleaving. The loop ends: with as many rounds as there are
pairs, or more, its condition is false at the end and the result is the same. -/
theorem interleaveBySource_fair (pairs : List Pair) : (∀ fuel, pairs.length ≤ fuel →
      (bySource pairs).interleave pairs.length fuel 0 [] = interleaveBySource pairs) ∧
    ¬ (interleaveBySource pairs).length < pairs.length ∧
    (interleaveBySource pairs).Perm (List.range pairs.length) ∧
    ((interleaveBySource pairs).Pairwise fun i j =>
      sourceAt pairs i = sourceAt pairs j → i < j) ∧
    ∀ n a b, takenFrom pairs n a ≤ takenFrom pairs n b + 1 ∨
      takenFrom pairs n b = load pairs b := by
  have length : (interleaveBySource pairs).length = pairs.length := by
    rw [(perm_interleaveBySource pairs).length_eq, List.length_range]
  refine ⟨?_, by omega, perm_interleaveBySource pairs, pairwise_interleaveBySource pairs, ?_⟩
  · intro fuel enough
    have longer := interleave_rounds pairs enough
    -- The rounds beyond the first `pairs.length` are empty.
    obtain ⟨more, rfl⟩ := Nat.exists_eq_add_of_le enough
    have rest : ((List.range more).map (pairs.length + ·)).flatMap (bySource pairs).round = [] := by
      have total := (perm_rounds pairs enough).length_eq
      rw [List.range_add, List.flatMap_append, ← interleaveBySource_eq, List.length_append,
        List.length_range] at total
      exact List.eq_nil_of_length_eq_zero (by omega)
    rw [longer, List.range_add, List.flatMap_append, rest, List.append_nil, interleaveBySource_eq]
  · intro n a b
    obtain ⟨whole, bounds⟩ := takenFrom_bounds pairs n
    have of_a := bounds a
    have of_b := bounds b
    omega

/-! ## The busiest source -/

theorem lookup_countPerSource (pairs : List Pair) (src : String) :
    ((countPerSource pairs).lookup src).getD 0 = load pairs src := by
  have counted : ∀ m : GoMap String Nat,
      ((pairs.foldl (fun m p => AList.insert p.source ((m.lookup p.source).getD 0 + 1) m) m).lookup
        src).getD 0 = (m.lookup src).getD 0 + load pairs src := by
    induction pairs with
    | nil => simp [load]
    | cons p pairs ih =>
      intro m
      rw [List.foldl_cons, ih, GoMap.lookup_insert_if]
      by_cases same : src = p.source
      · subst same
        simp [load]
        omega
      · simp [load, same, Ne.symm same]
  simpa [countPerSource] using counted ∅

theorem load_le_busiest (pairs : List Pair) (src : String) : load pairs src ≤ busiest pairs := by
  rw [← lookup_countPerSource]
  cases stored : (countPerSource pairs).lookup src with
  | none => simp
  | some n =>
    have entry := AList.mem_lookup_iff.mp stored
    exact foldl_establishes (Q := fun (e : Sigma fun _ : String => Nat) most => e.2 ≤ most)
      (by intro most e _; split <;> omega) (by intro most e e' _; split <;> omega) 0 _ entry

/-- The count of the busiest source is the count of one of the sources. -/
theorem exists_busiest (some_pair : pairs ≠ []) :
    ∃ src ∈ sourceOrder pairs, load pairs src = busiest pairs := by
  obtain ⟨p, mem⟩ := List.exists_mem_of_ne_nil pairs some_pair
  have pos := load_pos_iff.mpr (mem_sourceOrder.mpr ⟨p, mem, rfl⟩)
  have most := load_le_busiest pairs p.source
  have attained : busiest pairs = 0 ∨ ∃ e ∈ (countPerSource pairs).entries, e.2 = busiest pairs :=
    by
    refine foldl_invariant
      (I := fun most => most = 0 ∨ ∃ e ∈ (countPerSource pairs).entries, e.2 = most) (.inl rfl) ?_
    intro most e entry reached
    split
    · exact .inr ⟨e, entry, rfl⟩
    · exact reached
  rcases attained with none_at_all | ⟨⟨src, n⟩, entry, same⟩
  · omega
  · have counted := lookup_countPerSource pairs src
    rw [AList.mem_lookup_iff.mpr entry] at counted
    have of_src : load pairs src = busiest pairs := counted.symm.trans same
    exact ⟨src, load_pos_iff.mp (by omega), of_src⟩

end Kconmon.Console.Checks
