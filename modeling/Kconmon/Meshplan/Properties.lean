import Kconmon.Lib.Lists
import Kconmon.Meshplan.Zones

/-!
# Properties of the plan

`build` returns a plan whose edges are exactly those of the repaired adjacency
map. The ring keeps the fleet strongly connected; the repair observes every
ordered zone pair; nothing but the ring stays inside a zone.
-/
namespace Kconmon.Meshplan
open Lib Model

/-- The ring layer alone. -/
def ringAdj (ring : List AgentInfo) (ringDeg : Int) : Adj :=
  addRing ring ringDeg (GoMap.ofKeys (ring.map AgentInfo.id) [])

theorem edge_ringAdj (ring : List AgentInfo) (ringDeg : Int) (a b : String) :
    (ringAdj ring ringDeg).Edge a b ↔
      ∃ x i, ring[i]? = some x ∧ a = x.id ∧ b ∈ successors ring ringDeg i := by
  rw [ringAdj, edge_addRing]
  exact or_iff_right (not_edge_ofKeys _ a b)

theorem within_ringAdj (ring : List AgentInfo) (ringDeg : Int) : Within ring
    (ringAdj ring ringDeg) := by
  intro a b edge
  obtain ⟨x, i, hx, rfl, hb⟩ := (edge_ringAdj ring ringDeg a b).mp edge
  obtain ⟨d, -, rfl⟩ := mem_successors.mp hb
  have hx' : x ∈ ring := List.mem_of_getElem? hx
  exact ⟨x, hx', _, successor_mem (List.ne_nil_of_mem hx') i (d + 1), rfl, rfl⟩

theorem probes_planOf (ord : RangeOrder) (adj : Adj) (a b : String) :
    (planOf ord adj).Probes a b ↔ adj.Edge a b := by
  have filled := GoMap.lookup_foldl_perm (fun set => (ord.visit 4 set).insertionSort (· ≤ ·)) adj
    (ord.perm 3 adj.entries) a
  unfold Plan.Probes planOf Adj.Edge Adj.peers
  rw [filled]
  cases adj.lookup a with
  | none => simp
  | some set => simp [(List.perm_insertionSort (· ≤ ·) _).mem_iff]

/-! ## What `build` returns -/

section
variable {agents : List AgentInfo} {cfg : TopologyConfig}

/-- The guards of `build`: sparse mode, and a fleet at the threshold. -/
def Sparse (agents : List AgentInfo) (cfg : TopologyConfig) : Prop :=
  equalFold cfg.mode topologyModeSparse = true ∧
    ¬ (cfg.sparse.autoThreshold > 0 ∧ (agents.length : Int) < cfg.sparse.autoThreshold)

/-- The adjacency that the plan lists: the ring, then cross-zone edges only, and every
ordered pair of populated zones observed. -/
structure Layered (agents : List AgentInfo) (cfg : TopologyConfig) (adj : Adj) : Prop where
  ring : Extends (sortRing agents)
    (ringAdj (sortRing agents) (clamp cfg.sparse.ringDegree agents.length)) adj
  zones : ∀ x ∈ sortRing agents, ∀ y ∈ sortRing agents, x.zone ≠ y.zone →
    Observes (sortRing agents) adj x.zone y.zone

theorem build_sparse (ord : RangeOrder) (sparse : Sparse agents cfg) :
    build ord agents cfg = (do
      let ring := sortRing agents
      let ringDeg := clamp cfg.sparse.ringDegree agents.length
      let idHash := ring.map fun a => fnvHashParts [a.id]
      let adj ← addChords ring idHash (ringAdj ring ringDeg) ringDeg
        (clamp cfg.sparse.zoneChords agents.length)
      let adj ← repairZonePairs ord ring idHash adj
      return some (planOf ord adj)) := by
  unfold build
  rw [if_neg (by simp [sparse.1])]
  dsimp only
  rw [if_neg sparse.2]
  rfl

/-- Once the chords are in, the rest of `build` cannot fail. -/
theorem build_of_chords (ord : RangeOrder) (distinct : (agents.map AgentInfo.id).Nodup)
    (sparse : Sparse agents cfg) {chords : Adj} (done : addChords (sortRing agents)
      ((sortRing agents).map fun a => fnvHashParts [a.id])
      (ringAdj (sortRing agents) (clamp cfg.sparse.ringDegree agents.length))
      (clamp cfg.sparse.ringDegree agents.length)
      (clamp cfg.sparse.zoneChords agents.length) = .ok chords) :
    ∃ adj, build ord agents cfg = .ok (some (planOf ord adj)) ∧ Layered agents cfg adj := by
  have up := extends_addChords done
  obtain ⟨adj, repaired, up', zones⟩ := repairZonePairs_ok ord (distinct_sortRing distinct)
    ((sortRing agents).map fun a => fnvHashParts [a.id]) ((within_ringAdj _ _).mono up)
  refine ⟨adj, ?_, up.trans up', zones⟩
  rw [build_sparse ord sparse]
  dsimp only
  rw [done]
  change (do
    let adj ← repairZonePairs ord (sortRing agents) _ chords
    return some (planOf ord adj)) = _
  rw [repaired]
  rfl

theorem layered_of_build {ord : RangeOrder} (distinct : (agents.map AgentInfo.id).Nodup)
    {plan : Plan}
    (built : build ord agents cfg = .ok (some plan)) :
    ∃ adj, plan = planOf ord adj ∧ Layered agents cfg adj := by
  by_cases sparse : Sparse agents cfg
  · cases done : addChords (sortRing agents) ((sortRing agents).map fun a => fnvHashParts [a.id])
        (ringAdj (sortRing agents) (clamp cfg.sparse.ringDegree agents.length))
        (clamp cfg.sparse.ringDegree agents.length)
        (clamp cfg.sparse.zoneChords agents.length) with
    | error e =>
      rw [build_sparse ord sparse] at built
      dsimp only at built
      rw [done] at built
      cases built
    | ok chords =>
      obtain ⟨adj, result, layered⟩ := build_of_chords ord distinct sparse done
      rw [result] at built
      exact ⟨adj, (Option.some.inj (Except.ok.inj built)).symm, layered⟩
  · exfalso
    unfold build at built
    split at built
    · cases built
    · rename_i mode
      dsimp only at built
      rw [if_pos] at built
      · cases built
      · by_contra threshold
        exact sparse ⟨by simpa using mode, threshold⟩

end

/-! ## Connectivity -/

theorem clamp_pos {wanted : Int} {n : Nat} (positive : 1 ≤ wanted) (two : 2 ≤ n) :
    1 ≤ clamp wanted n := by
  unfold clamp
  omega

theorem clamp_nonneg {wanted : Int} (nonneg : 0 ≤ wanted) (n : Nat) : 0 ≤ clamp wanted n := by
  unfold clamp
  omega

/-- With degree at least one, each ring position probes the next. -/
theorem edge_next {ring : List AgentInfo} {ringDeg : Int} (deg : 1 ≤ ringDeg) {i j : Nat}
    {x y : AgentInfo} (next : j = (i + 1) % ring.length) (hx : ring[i]? = some x)
    (hy : ring[j]? = some y) : (ringAdj ring ringDeg).Edge x.id y.id := by
  refine (edge_ringAdj _ _ _ _).mpr ⟨x, i, hx, rfl, mem_successors.mpr ⟨0, by omega, ?_⟩⟩
  rw [successor, ← next, List.getD_eq_getElem?_getD, hy, Option.getD_some]

theorem edge_previous {ring : List AgentInfo} {ringDeg : Int} (deg : 1 ≤ ringDeg)
    (distinct : (ring.map AgentInfo.id).Nodup) (two : 2 ≤ ring.length) {y : AgentInfo}
    (hy : y ∈ ring) : ∃ x ∈ ring, x.id ≠ y.id ∧ (ringAdj ring ringDeg).Edge x.id y.id := by
  obtain ⟨j, hj, rfl⟩ := List.getElem_of_mem hy
  -- the predecessor of position `j` on the ring
  have pos : (j + ring.length - 1) % ring.length < ring.length := Nat.mod_lt _ (by omega)
  have next : j = ((j + ring.length - 1) % ring.length + 1) % ring.length := by
    rw [Nat.mod_add_mod, show j + ring.length - 1 + 1 = j + ring.length by omega,
      Nat.add_mod_right, Nat.mod_eq_of_lt hj]
  refine ⟨ring.get ⟨_, pos⟩, List.get_mem _ _, fun same => ?_,
    edge_next deg next (List.getElem?_eq_getElem pos) (List.getElem?_eq_getElem hj)⟩
  have length : (ring.map AgentInfo.id).length = ring.length := List.length_map _
  have index : (j + ring.length - 1) % ring.length = j :=
    (@List.Nodup.getElem_inj_iff _ _ distinct _ (length ▸ pos) _ (length ▸ hj)).mp
      (by simpa using same)
  rcases Nat.eq_zero_or_pos j with rfl | positive
  · rw [Nat.zero_add, Nat.mod_eq_of_lt (by omega)] at index
    omega
  · rw [show j + ring.length - 1 = (j - 1) + ring.length by omega, Nat.add_mod_right,
      Nat.mod_eq_of_lt (by omega)] at index
    omega

/-- The plan of a sparse fleet exists and is strongly connected. -/
theorem build_stronglyConnected (ord : RangeOrder) (agents : List AgentInfo) (cfg : TopologyConfig)
    (distinct : (agents.map AgentInfo.id).Nodup)
    (mode : equalFold cfg.mode topologyModeSparse = true)
    (deg : 1 ≤ cfg.sparse.ringDegree) (chords : 0 ≤ cfg.sparse.zoneChords)
    (threshold : cfg.sparse.autoThreshold ≤ agents.length) :
    ∃ plan, build ord agents cfg = .ok (some plan) ∧
      (∀ x ∈ agents, ∀ y ∈ agents, Relation.ReflTransGen plan.Probes x.id y.id) ∧
      (2 ≤ agents.length → ∀ y ∈ agents, ∃ x ∈ agents, x.id ≠ y.id ∧ plan.Probes x.id y.id) := by
  have sparse : Sparse agents cfg := ⟨mode, by omega⟩
  obtain ⟨chorded, done⟩ := addChords_ok (sortRing agents)
    ((sortRing agents).map fun a => fnvHashParts [a.id])
    (ringAdj (sortRing agents) (clamp cfg.sparse.ringDegree agents.length))
    (clamp_nonneg (by omega : 0 ≤ cfg.sparse.ringDegree) agents.length)
    (clamp_nonneg chords agents.length)
  obtain ⟨adj, built, layers⟩ := build_of_chords ord distinct sparse done
  have probes : ∀ {a b}, (ringAdj (sortRing agents)
      (clamp cfg.sparse.ringDegree agents.length)).Edge a b → (planOf ord adj).Probes a b :=
    fun edge => (probes_planOf ord adj _ _).mpr (layers.ring.1 _ _ edge)
  refine ⟨planOf ord adj, built, fun x hx y hy => ?_, fun two y hy => ?_⟩
  · by_cases two : 2 ≤ agents.length
    · have next := clamp_pos deg two
      have walk : Relation.ReflTransGen
          (fun x y : AgentInfo => (planOf ord adj).Probes x.id y.id) x y :=
        reflTransGen_cycle (fun i j x y step hi hj => probes (edge_next next step hi hj))
          (mem_sortRing.mpr hx) (mem_sortRing.mpr hy)
      exact walk.lift AgentInfo.id fun _ _ edge => edge
    · -- a fleet of one agent has nothing to reach
      obtain ⟨z, rfl⟩ : ∃ z, agents = [z] := by
        have pos := List.length_pos_of_mem hx
        exact List.length_eq_one_iff.mp (by omega)
      rw [List.mem_singleton.mp hx, List.mem_singleton.mp hy]
  · obtain ⟨x, hx, differ, edge⟩ := edge_previous (clamp_pos deg two) (distinct_sortRing distinct)
      (by simpa using two) (mem_sortRing.mpr hy)
    exact ⟨x, mem_sortRing.mp hx, differ, probes edge⟩

/-- Three agents, two of them on one node, in two zones. -/
def smallFleet : List AgentInfo :=
  [{ id := "a", nodeName := "n1", zone := "z1" }, { id := "b", nodeName := "n1", zone := "z1" },
   { id := "c", nodeName := "n2", zone := "" }]

theorem smallFleet_stronglyConnected :
    ∃ plan, build .stored smallFleet ⟨"Sparse", 1, 0, 3⟩ = .ok (some plan) ∧
      (∀ x ∈ smallFleet, ∀ y ∈ smallFleet, Relation.ReflTransGen plan.Probes x.id y.id) ∧
      (2 ≤ smallFleet.length →
        ∀ y ∈ smallFleet, ∃ x ∈ smallFleet, x.id ≠ y.id ∧ plan.Probes x.id y.id) :=
  build_stronglyConnected .stored smallFleet ⟨"Sparse", 1, 0, 3⟩ (by decide) (by decide) (by decide)
    (by decide) (by decide)

/-! ## Zone coverage -/

/-- A plan observes every ordered pair of populated zones, and beyond the ring it has
cross-zone edges only. -/
theorem build_coversZones (ord : RangeOrder) (agents : List AgentInfo) (cfg : TopologyConfig)
    (plan : Plan) (distinct : (agents.map AgentInfo.id).Nodup)
    (built : build ord agents cfg = .ok (some plan)) :
    (∀ z1 z2, z1 ≠ z2 → (∃ x ∈ agents, x.zone = z1) → (∃ y ∈ agents, y.zone = z2) →
      ∃ x ∈ agents, ∃ y ∈ agents, x.zone = z1 ∧ y.zone = z2 ∧ plan.Probes x.id y.id) ∧
    ∀ a b, plan.Probes a b → (∃ x i, (sortRing agents)[i]? = some x ∧ x.id = a ∧
        b ∈ successors (sortRing agents) (clamp cfg.sparse.ringDegree agents.length) i) ∨
      ∃ x ∈ agents, ∃ y ∈ agents, x.id = a ∧ y.id = b ∧ x.zone ≠ y.zone := by
  obtain ⟨adj, rfl, layers⟩ := layered_of_build distinct built
  constructor
  · rintro _ _ differ ⟨x, hx, rfl⟩ ⟨y, hy, rfl⟩
    obtain ⟨u, hu, v, hv, zu, zv, edge⟩ :=
      layers.zones x (mem_sortRing.mpr hx) y (mem_sortRing.mpr hy) differ
    exact ⟨u, mem_sortRing.mp hu, v, mem_sortRing.mp hv, zu, zv,
      (probes_planOf ord adj _ _).mpr edge⟩
  · intro a b probe
    rcases layers.ring.2 a b ((probes_planOf ord adj a b).mp probe) with inRing | cross
    · obtain ⟨x, i, hx, rfl, hb⟩ := (edge_ringAdj _ _ a b).mp inRing
      exact .inl ⟨x, i, hx, rfl, hb⟩
    · obtain ⟨x, hx, y, hy, ha, hb, zones⟩ := cross
      exact .inr ⟨x, mem_sortRing.mp hx, y, mem_sortRing.mp hy, ha, hb, zones⟩

theorem smallFleet_coversZones :
    ∃ plan, build .stored smallFleet ⟨"sparse", 0, 0, 0⟩ = .ok (some plan) ∧
      (∃ x ∈ smallFleet, ∃ y ∈ smallFleet, x.zone = "z1" ∧ y.zone = "" ∧ plan.Probes x.id y.id) ∧
      (∃ x ∈ smallFleet, ∃ y ∈ smallFleet,
        x.zone = "" ∧ y.zone = "z1" ∧ plan.Probes x.id y.id) := by
  have distinct : (smallFleet.map AgentInfo.id).Nodup := by decide
  have sparse : Sparse smallFleet ⟨"sparse", 0, 0, 0⟩ := ⟨by decide, by decide⟩
  obtain ⟨adj, built, -⟩ := build_of_chords .stored distinct sparse rfl
  have covers := (build_coversZones .stored smallFleet ⟨"sparse", 0, 0, 0⟩ _ distinct built).1
  exact ⟨_, built, covers "z1" "" (by decide) (by decide) (by decide),
    covers "" "z1" (by decide) (by decide) (by decide)⟩

end Kconmon.Meshplan
