import Kconmon.Meshplan.Properties

/-!
# The plan depends on the set of agents alone

Neither the order in which the agents are listed nor the orders in which `build` ranges
over its maps can be seen in the plan: the ring is sorted, what is read off a map is
sorted or only tested for membership, and the peer lists are sorted.
-/
namespace Kconmon.Meshplan
open Lib Model

/-- What a reader of the plan sees: the peers listed for each id. -/
def Plan.view (p : Plan) (id : String) : Option (List String) := p.lookup id

/-- The result of `build` as its caller sees it; the inner `none` is the full mesh. -/
def seen (result : Except Panic (Option Plan)) :
    Except Panic (Option (String → Option (List String))) := result.map (Option.map Plan.view)

/-! ## Sorting -/

theorem ringLess_eq_false_iff (a b : AgentInfo) : ringLess b a = false ↔
    a.nodeName < b.nodeName ∨ a.nodeName = b.nodeName ∧ a.id ≤ b.id := by
  unfold ringLess
  split
  · rename_i differ
    have := Ne.symm differ
    grind
  · grind

instance : Std.Total fun a b : AgentInfo => ringLess b a = false where
  total a b := by
    rw [ringLess_eq_false_iff, ringLess_eq_false_iff]
    grind

instance : IsTrans AgentInfo fun a b => ringLess b a = false where
  trans a b c := by
    rw [ringLess_eq_false_iff, ringLess_eq_false_iff, ringLess_eq_false_iff]
    grind

theorem sortRing_eq_of_perm {agents agents' : List AgentInfo} (perm : agents.Perm agents')
    (distinct : (agents.map AgentInfo.id).Nodup) : sortRing agents = sortRing agents' := by
  refine List.Perm.eq_of_pairwise ?_ (List.pairwise_insertionSort _ agents)
    (List.pairwise_insertionSort _ agents')
    (((perm_sortRing agents).trans perm).trans (perm_sortRing agents').symm)
  intro a b ha hb le ge
  rw [ringLess_eq_false_iff] at le ge
  have same : a.id = b.id := by grind
  have listed := (perm_sortRing agents).mem_iff.mp ha
  have listed' := perm.mem_iff.mpr ((perm_sortRing agents').mem_iff.mp hb)
  exact List.inj_on_of_nodup_map distinct listed listed' same

theorem insertionSort_visit (ord ord' : RangeOrder) (site : Nat) (l : List String) :
    (ord.visit site l).insertionSort (· ≤ ·) = (ord'.visit site l).insertionSort (· ≤ ·) := by
  refine List.Perm.eq_of_pairwise' (List.pairwise_insertionSort _ _)
    (List.pairwise_insertionSort (· ≤ ·) _) ?_
  calc (ord.visit site l).insertionSort (· ≤ ·)
      _ |>.Perm (ord.visit site l) := List.perm_insertionSort _ _
      _ |>.Perm l := ord.perm site l
      _ |>.Perm (ord'.visit site l) := (ord'.perm site l).symm
      _ |>.Perm _ := (List.perm_insertionSort _ _).symm

/-! ## The three layers -/

theorem mem_coveredPairs_iff (ord ord' : RangeOrder) (ring : List AgentInfo) (adj : Adj)
    (pair : String × String) :
    pair ∈ coveredPairs ord ring adj ↔ pair ∈ coveredPairs ord' ring adj := by
  simp [coveredPairs]

theorem repairPair_congr (ring : List AgentInfo) (idHash : List UInt64)
    {covered covered' : List (String × String)} (same : ∀ pair, pair ∈ covered ↔ pair ∈ covered')
    (z1 z2 : String) (adj : Adj) :
    repairPair ring idHash covered z1 z2 adj = repairPair ring idHash covered' z1 z2 adj := by
  unfold repairPair
  simp only [same]

theorem repairZonePairs_congr (ord ord' : RangeOrder) (ring : List AgentInfo)
    (idHash : List UInt64) (adj : Adj) :
    repairZonePairs ord ring idHash adj = repairZonePairs ord' ring idHash adj := by
  unfold repairZonePairs
  simp only [insertionSort_visit ord ord', repairPair_congr ring idHash
    (mem_coveredPairs_iff ord ord' ring adj)]

theorem view_planOf (ord ord' : RangeOrder) (adj : Adj) :
    (planOf ord adj).view = (planOf ord' adj).view := by
  funext id
  have filled (ord : RangeOrder) : (planOf ord adj).view id =
      (adj.lookup id).map fun set => (ord.visit 4 set).insertionSort (· ≤ ·) :=
    GoMap.lookup_foldl_perm (fun set => (ord.visit 4 set).insertionSort (· ≤ ·)) adj
      (ord.perm 3 adj.entries) id
  rw [filled, filled]
  simp only [insertionSort_visit ord ord']

/-- The same fleet in another order, under other iteration orders, has the same plan. -/
theorem seen_build_of_perm (ord ord' : RangeOrder) {agents agents' : List AgentInfo}
    (perm : agents.Perm agents') (distinct : (agents.map AgentInfo.id).Nodup)
    (cfg : TopologyConfig) : seen (build ord agents cfg) = seen (build ord' agents' cfg) := by
  unfold build
  simp only [sortRing_eq_of_perm perm distinct, perm.length_eq, repairZonePairs_congr ord ord']
  split
  · rfl
  split
  · rfl
  cases addChords (sortRing agents') _ _ _ _ with
  | error panic => rfl
  | ok adj =>
    change seen (do
        let adj ← repairZonePairs ord' (sortRing agents') _ adj
        return some (planOf ord adj)) =
      seen (do
        let adj ← repairZonePairs ord' (sortRing agents') _ adj
        return some (planOf ord' adj))
    cases repairZonePairs ord' (sortRing agents') _ adj with
    | error panic => rfl
    | ok adj => exact congrArg (fun view => Except.ok (some view)) (view_planOf ord ord' adj)

/-- Two results of `build` that no caller can tell apart. -/
inductive Agree : Except Panic (Option Plan) → Except Panic (Option Plan) → Prop
  | fullMesh : Agree (.ok none) (.ok none)
  | sparse {plan plan' : Plan} (same : ∀ id, plan.lookup id = plan'.lookup id) :
      Agree (.ok (some plan)) (.ok (some plan'))
  | panic (p : Panic) : Agree (.error p) (.error p)

theorem agree_of_seen {result result' : Except Panic (Option Plan)}
    (same : seen result = seen result') : Agree result result' := by
  unfold seen Except.map at same
  match result, result', same with
  | .error panic, .error panic', same =>
    obtain rfl := Except.error.inj same
    exact .panic panic
  | .ok none, .ok none, _ => exact .fullMesh
  | .ok (some plan), .ok (some plan'), same =>
    exact .sparse (congrFun (Option.some.inj (Except.ok.inj same)))

/-- The plan does not depend on the order in which the fleet is listed, nor on the
orders in which the maps of `build` are visited. -/
theorem build_agrees (ord ord' : RangeOrder) (agents agents' : List AgentInfo)
    (cfg : TopologyConfig) (distinct : (agents.map AgentInfo.id).Nodup)
    (perm : agents.Perm agents') : Agree (build ord agents cfg) (build ord' agents' cfg) :=
  agree_of_seen (seen_build_of_perm ord ord' perm distinct cfg)

/-- Every map visited from its last entry to its first. -/
def backwards : RangeOrder where
  visit _ _ l := l.reverse
  perm _ _ l := List.reverse_perm l

theorem smallFleet_agrees : (smallFleet.map AgentInfo.id).Nodup ∧
      Agree (build .stored smallFleet ⟨"Sparse", 1, 1, 3⟩)
        (build backwards smallFleet.reverse ⟨"Sparse", 1, 1, 3⟩) := by
  have distinct : (smallFleet.map AgentInfo.id).Nodup := by decide
  exact ⟨distinct, build_agrees _ _ _ _ _ distinct (List.reverse_perm _).symm⟩

end Kconmon.Meshplan
