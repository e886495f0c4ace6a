import Kconmon.Console.Fold
import Kconmon.Controller.Told
import Mathlib.Data.List.Induction

/-!
# The fold refines the registry

The fold over the rows of a history holds, for each agent, what the events since
its last arrival state. With the registry's side of the same view this gives
the snapshot: the live agents under their own nodes, each with the last zone and
the last labels that were stated.
-/
namespace Kconmon.Console
open Lib Model Controller

/-! ## One row -/

/-- The details as the fold reads them back. -/
def detailsOf (e : TopologyChanged) : TopologyChangeDetails :=
  ⟨e.reason.text, e.nodeName, e.agentId, e.zone, if e.labels = [] then none else some e.labels⟩

theorem step_rowOf (s : FoldState) (t : Nat) (e : TopologyChanged) :
    s.step (rowOf t e) = { s with lastChange := max s.lastChange t }.change (detailsOf e) := rfl

variable {home : String → String} {e : TopologyChanged}

section
variable (s : FoldState)
include s

/-- An attributed event that does not depart is a placement, one that does a removal. -/
theorem change_detailsOf (named : e.Attributed home) :
    s.change (detailsOf e) = if e.departs then s.remove (detailsOf e)
      else (s.placeNode (detailsOf e)).placeAgent (detailsOf e) := by
  have someone : ¬ ((detailsOf e).nodeName = "" ∧ (detailsOf e).agentID = "") :=
    fun empty => named.1 empty.2
  unfold FoldState.change
  rw [if_neg someone]
  obtain ⟨reason, nodeName, agentId, zone, labels⟩ := e
  cases reason <;> simp [detailsOf, TopologyChanged.departs, Reason.text]

theorem lookup_placed (named : e.Attributed home) (id : String) :
    ((s.placeNode (detailsOf e)).placeAgent (detailsOf e)).agents.lookup id =
      if id = e.agentId then
        let prev := (s.agents.lookup id).getD {}
        some ⟨e.nodeName, if e.zone = "" then prev.zone else e.zone,
          if e.labels = [] then prev.labels else some e.labels⟩
      else s.agents.lookup id := by
  have hid : (detailsOf e).agentID ≠ "" := named.1
  have hnode : (detailsOf e).nodeName ≠ "" := named.2.1
  simp only [FoldState.placeAgent, FoldState.placeNode, hid, hnode, if_false,
    GoMap.lookup_insert_if]
  change (if id = e.agentId then _ else _) = _
  split
  · rename_i same
    subst same
    by_cases empty : e.labels = [] <;> simp [detailsOf, empty]
  · rfl

theorem mem_nodes_placed (named : e.Attributed home) (name : String) :
    name ∈ ((s.placeNode (detailsOf e)).placeAgent (detailsOf e)).nodes ↔
      name = e.nodeName ∨ name ∈ s.nodes := by
  have hid : (detailsOf e).agentID ≠ "" := named.1
  have hnode : (detailsOf e).nodeName ≠ "" := named.2.1
  simp only [FoldState.placeAgent, FoldState.placeNode, hid, hnode, if_false, AList.mem_insert]
  rfl

theorem lookup_removed (d : TopologyChangeDetails) (id : String) :
    (s.remove d).agents.lookup id = if id = d.agentID then none else s.agents.lookup id := by
  rw [FoldState.agents_remove, GoMap.lookup_erase_if]

theorem mem_nodes_removed {d : TopologyChangeDetails} (named : d.agentID ≠ "")
    (name : String) : name ∈ (s.remove d).nodes ↔ name ∈ s.nodes ∧ (name = d.nodeName →
      ∃ id p, (s.remove d).agents.lookup id = some p ∧ p.nodeName = d.nodeName) := by
  have hosted : (∃ e ∈ (s.agents.erase d.agentID).entries, e.2.nodeName = d.nodeName) ↔
      ∃ id p, (s.remove d).agents.lookup id = some p ∧ p.nodeName = d.nodeName := by
    rw [FoldState.agents_remove]
    constructor
    · rintro ⟨e, he, node⟩
      exact ⟨e.1, e.2, AList.mem_lookup_iff.mpr he, node⟩
    · rintro ⟨id, p, hp, node⟩
      exact ⟨⟨id, p⟩, AList.mem_lookup_iff.mp hp, node⟩
  rw [← hosted]
  unfold FoldState.remove
  dsimp only
  split
  · rename_i populated
    exact ⟨fun h => ⟨h, fun _ => populated.2⟩, fun h => h.1⟩
  · rename_i empty
    rw [AList.mem_erase]
    constructor
    · rintro ⟨other, h⟩
      exact ⟨h, fun same => absurd same other⟩
    · rintro ⟨h, host⟩
      exact ⟨fun same => empty ⟨named, host same⟩, h⟩

end

/-! ## All rows -/

def foldState (stamped : List (Nat × TopologyChanged)) : FoldState :=
  (stamped.map fun p => rowOf p.1 p.2).foldl FoldState.step {}

/-- The placement that the events about an agent state. -/
def statedPlacement (events : List TopologyChanged) (id : String) : Option Placement :=
  (sinceArrival events id).head?.map fun e =>
    ⟨e.nodeName, lastStatedZone events id, lastStatedLabels events id⟩

structure Replayed (events : List TopologyChanged) (s : FoldState) : Prop where
  agents : ∀ id, s.agents.lookup id = statedPlacement events id
  nodes : ∀ name, name ∈ s.nodes ↔ ∃ id p, s.agents.lookup id = some p ∧ p.nodeName = name

theorem statedPlacement_snoc (events : List TopologyChanged) (e : TopologyChanged) (id : String) :
    statedPlacement (events ++ [e]) id =
      if id = e.agentId then
        if e.departs then none
        else
          let prev := (statedPlacement events id).getD {}
          some ⟨e.nodeName, if e.zone = "" then prev.zone else e.zone,
            if e.labels = [] then prev.labels else some e.labels⟩
      else statedPlacement events id := by
  unfold statedPlacement lastStatedZone lastStatedLabels
  rw [sinceArrival_snoc]
  by_cases same : id = e.agentId
  · subst same
    cases departs : e.departs with
    | true => simp
    | false =>
      have zone : ∀ l : List TopologyChanged,
          ((l.head?.map fun h =>
            (⟨h.nodeName, (l.find? fun e => e.zone ≠ "").elim "" fun e => e.zone,
            (l.find? fun e => e.labels ≠ []).map fun e => e.labels⟩ : Placement)).getD {}) =
          ⟨(l.head?.map fun h => h.nodeName).getD "",
            (l.find? fun e => e.zone ≠ "").elim "" fun e => e.zone,
            (l.find? fun e => e.labels ≠ []).map fun e => e.labels⟩ := by
        intro l
        cases l <;> simp
      rw [zone]
      by_cases hz : e.zone = "" <;> by_cases hl : e.labels = [] <;> simp [hz, hl]
  · simp [same, Ne.symm same]

variable {s : FoldState} {id : String}

theorem Replayed.nodeName {events : List TopologyChanged} (replayed : Replayed events s)
    (attributed : ∀ e ∈ events, e.Attributed home) {p : Placement}
    (hp : s.agents.lookup id = some p) : p.nodeName = home id := by
  rw [replayed.agents, statedPlacement, Option.map_eq_some_iff] at hp
  obtain ⟨e, he, rfl⟩ := hp
  obtain ⟨mem, same⟩ := agentId_of_sinceArrival he
  rw [← same]
  exact (attributed e mem).2.2

theorem Replayed.change {events : List TopologyChanged} (replayed : Replayed events s)
    (attributed : ∀ e ∈ events, e.Attributed home) (named : e.Attributed home) :
    Replayed (events ++ [e]) (s.change (detailsOf e)) := by
  rw [change_detailsOf s named]
  cases departs : e.departs with
  | false =>
    refine ⟨fun id => ?_, fun name => ?_⟩
    · simp [lookup_placed s named, statedPlacement_snoc, departs, replayed.agents]
    · -- the agent's own earlier placement is on the same node, so no node loses its last agent
      simp only [Bool.false_eq_true, if_false]
      rw [mem_nodes_placed s named, replayed.nodes]
      constructor
      · rintro (rfl | ⟨id, p, hp, rfl⟩)
        · exact ⟨e.agentId, _, by rw [lookup_placed s named, if_pos rfl], rfl⟩
        · by_cases same : id = e.agentId
          · refine ⟨e.agentId, _, by rw [lookup_placed s named, if_pos rfl], ?_⟩
            change e.nodeName = _
            rw [replayed.nodeName attributed hp, same]
            exact named.2.2
          · exact ⟨id, p, by rw [lookup_placed s named, if_neg same]; exact hp, rfl⟩
      · rintro ⟨id, p, hp, rfl⟩
        rw [lookup_placed s named] at hp
        split at hp
        · exact .inl (by rw [← Option.some.inj hp])
        · exact .inr ⟨id, p, hp, rfl⟩
  | true =>
    have left : ∀ id, (s.remove (detailsOf e)).agents.lookup id =
        if id = e.agentId then none else s.agents.lookup id := lookup_removed s (detailsOf e)
    refine ⟨fun id => ?_, fun name => ?_⟩
    · simp only [if_true, left, statedPlacement_snoc, departs, replayed.agents]
    · simp only [if_true]
      rw [mem_nodes_removed s (d := detailsOf e) named.1, replayed.nodes]
      constructor
      · rintro ⟨⟨id, p, hp, rfl⟩, host⟩
        by_cases same : id = e.agentId
        · have node : p.nodeName = e.nodeName := by
            rw [replayed.nodeName attributed hp, same]
            exact named.2.2.symm
          obtain ⟨id', p', hp', node'⟩ := host node
          exact ⟨id', p', hp', node'.trans node.symm⟩
        · exact ⟨id, p, by rw [left, if_neg same]; exact hp, rfl⟩
      · rintro ⟨id, p, hp, rfl⟩
        refine ⟨⟨id, p, ?_, rfl⟩, fun node => ⟨id, p, hp, node⟩⟩
        rw [left] at hp
        split at hp
        · cases hp
        · exact hp

theorem replayed_foldState (stamped : List (Nat × TopologyChanged))
    (attributed : ∀ e ∈ stamped.map Prod.snd, e.Attributed home) :
    Replayed (stamped.map Prod.snd) (foldState stamped) := by
  induction stamped using List.reverseRecOn with
  | nil => exact ⟨fun id => rfl, fun name => by simp [foldState]⟩
  | append_singleton stamped p ih =>
    obtain ⟨t, e⟩ := p
    rw [List.map_append] at attributed ⊢
    have before := ih fun e he => attributed e (List.mem_append_left _ he)
    have stepped : foldState (stamped ++ [(t, e)]) =
        { foldState stamped with lastChange := max (foldState stamped).lastChange t }.change
          (detailsOf e) := by
      simp [foldState, step_rowOf]
    rw [stepped]
    have same : Replayed (stamped.map Prod.snd)
        { foldState stamped with lastChange := max (foldState stamped).lastChange t } :=
      ⟨before.agents, before.nodes⟩
    exact same.change (fun e he => attributed e (List.mem_append_left _ he))
      (attributed e (List.mem_append_right _ (List.mem_singleton_self e)))

/-! ## The snapshot -/

theorem mem_snapshot_agents (s : FoldState) (n : Nat) (a : TopologyAgent) :
    a ∈ (s.snapshot n).agents ↔ ∃ p, s.agents.lookup a.id = some p ∧
      a = ⟨a.id, p.nodeName, p.zone, "", p.labels⟩ := by
  unfold FoldState.snapshot
  rw [(List.perm_insertionSort _ _).mem_iff, List.mem_map]
  constructor
  · rintro ⟨e, he, rfl⟩
    exact ⟨e.2, AList.mem_lookup_iff.mpr he, rfl⟩
  · rintro ⟨p, hp, ha⟩
    exact ⟨⟨a.id, p⟩, AList.mem_lookup_iff.mp hp, ha.symm⟩

theorem nodup_snapshot_agents (s : FoldState) (n : Nat) :
    ((s.snapshot n).agents.map TopologyAgent.id).Nodup := by
  refine ((List.perm_insertionSort _ _).map TopologyAgent.id).nodup_iff.mpr ?_
  rw [List.map_map]
  exact s.agents.nodupKeys

theorem mem_bareHosts (s : FoldState) (name : String) :
    name ∈ s.bareHosts ↔ ∃ id p, s.agents.lookup id = some p ∧ p.nodeName = name ∧
      (p.labels.getD []).external = true := by
  unfold FoldState.bareHosts
  rw [List.mem_map]
  constructor
  · rintro ⟨e, he, node⟩
    obtain ⟨mem, external⟩ := List.mem_filter.mp he
    exact ⟨e.1, e.2, AList.mem_lookup_iff.mpr mem, node, external⟩
  · rintro ⟨id, p, hp, node, external⟩
    exact ⟨⟨id, p⟩, List.mem_filter.mpr ⟨AList.mem_lookup_iff.mp hp, external⟩, node⟩

theorem mem_snapshot_nodes_iff (s : FoldState) (n : Nat) (node : TopologyNode) :
    node ∈ (s.snapshot n).nodes ↔
      s.nodes.lookup node.name = some ⟨node.zone, node.ready⟩ ∧ node.name ∉ s.bareHosts := by
  unfold FoldState.snapshot
  rw [(List.perm_insertionSort _ _).mem_iff, List.mem_map]
  constructor
  · rintro ⟨e, he, rfl⟩
    obtain ⟨mem, bare⟩ := List.mem_filter.mp he
    exact ⟨AList.mem_lookup_iff.mpr mem, by simpa using bare⟩
  · rintro ⟨found, bare⟩
    exact ⟨⟨node.name, node.zone, node.ready⟩,
      List.mem_filter.mpr ⟨AList.mem_lookup_iff.mp found, by simpa using bare⟩, rfl⟩

theorem mem_snapshot_nodes (s : FoldState) (n : Nat) (name : String) :
    name ∈ (s.snapshot n).nodes.map TopologyNode.name ↔ name ∈ s.nodes ∧ name ∉ s.bareHosts := by
  rw [List.mem_map, ← AList.lookup_isSome, Option.isSome_iff_exists]
  constructor
  · rintro ⟨node, listed, rfl⟩
    obtain ⟨held, shown⟩ := (mem_snapshot_nodes_iff s n node).mp listed
    exact ⟨⟨_, held⟩, shown⟩
  · rintro ⟨⟨⟨zone, ready⟩, held⟩, shown⟩
    exact ⟨⟨name, zone, ready⟩, (mem_snapshot_nodes_iff s n _).mpr ⟨held, shown⟩, rfl⟩

theorem nodup_snapshot_nodes (s : FoldState) (n : Nat) :
    ((s.snapshot n).nodes.map TopologyNode.name).Nodup := by
  refine ((List.perm_insertionSort _ _).map TopologyNode.name).nodup_iff.mpr ?_
  rw [List.map_map]
  exact s.nodes.nodupKeys.sublist List.filter_sublist

/-! ## The refinement -/

/-- What the operations of a history register, in order. -/
def registrations (ops : List Op) : List AgentInfo := ops.filterMap Op.registers

/-- The agents of a registry as a snapshot would list them. -/
def Hosts (r : Registry) (id name : String) : Prop :=
  ∃ a, r.agents.lookup id = some a ∧ a.info.nodeName = name

variable {h : History}

theorem Replayed.hosts (told : Told home h) (replayed : Replayed h.events s) (id : String) :
    s.agents.lookup id = (h.registry.agents.lookup id).map fun a =>
      ⟨a.info.nodeName, lastStatedZone h.events id, lastStatedLabels h.events id⟩ := by
  rw [replayed.agents, statedPlacement]
  cases ha : h.registry.agents.lookup id with
  | none => simp [told.gone id ha]
  | some a =>
    obtain ⟨-, e, he, node, -, -⟩ := told.live id a ha
    simp [he, node]

/-- A zone that the registry holds now was the last one stated. -/
theorem lastStatedZone_of_live (told : Told home h) {a : RegisteredAgent}
    (ha : h.registry.agents.lookup id = some a) (stated : a.info.zone ≠ "") :
    lastStatedZone h.events id = a.info.zone := by
  obtain ⟨-, e, he, -, zone, -⟩ := told.live id a ha
  obtain ⟨rest, since⟩ := List.head?_eq_some_iff.mp he
  have found : e.zone ≠ "" := zone ▸ stated
  rw [lastStatedZone, since, List.find?_cons_of_pos (by simpa using found)]
  exact zone

theorem lastStatedLabels_of_live (told : Told home h) {a : RegisteredAgent}
    (ha : h.registry.agents.lookup id = some a) (stated : a.info.labels ≠ []) :
    lastStatedLabels h.events id = some a.info.labels := by
  obtain ⟨-, e, he, -, -, labels⟩ := told.live id a ha
  obtain ⟨rest, since⟩ := List.head?_eq_some_iff.mp he
  have found : e.labels ≠ [] := labels ▸ stated
  rw [lastStatedLabels, since, List.find?_cons_of_pos (by simpa using found), Option.map_some,
    labels]

/-- The node an agent registers on, when it always registers on the same one. -/
def homeOf (infos : List AgentInfo) (id : String) : String :=
  ((infos.find? fun i => i.id = id).map AgentInfo.nodeName).getD ""

theorem homeOf_eq {infos : List AgentInfo}
    (same : ∀ i ∈ infos, ∀ j ∈ infos, i.id = j.id → i.nodeName = j.nodeName) {i : AgentInfo}
    (hi : i ∈ infos) : i.nodeName = homeOf infos i.id := by
  cases found : infos.find? fun j => j.id = i.id with
  | none => simpa using List.find?_eq_none.mp found i hi
  | some j =>
    have id : j.id = i.id := by simpa using List.find?_some found
    simp [homeOf, found, same i hi j (List.mem_of_find?_eq_some found) id.symm]

/-- The fold of every recorded history lists the registry's agents on their nodes, each with
the zone and the labels last stated for it, and the nodes that host an agent and no external one. -/
theorem foldTopology_refines (ttl : Int) (ops : List Op) (stamped : List (Nat × TopologyChanged))
    (valid : ∀ i ∈ registrations ops, i.id ≠ "" ∧ i.nodeName ≠ "")
    (same : ∀ i ∈ registrations ops, ∀ j ∈ registrations ops, i.id = j.id → i.nodeName = j.nodeName)
    (recorded : stamped.map Prod.snd = (History.run ttl ops).events) :
    let h := History.run ttl ops
    let snap := foldTopology (stamped.map fun p => rowOf p.1 p.2)
    (∀ a, a ∈ snap.agents ↔ ∃ ra, h.registry.agents.lookup a.id = some ra ∧ a =
      ⟨a.id, ra.info.nodeName, lastStatedZone h.events a.id, "", lastStatedLabels h.events a.id⟩) ∧
    (snap.agents.map TopologyAgent.id).Nodup ∧ (∀ id ra, h.registry.agents.lookup id = some ra →
      (ra.info.zone ≠ "" → lastStatedZone h.events id = ra.info.zone) ∧
      (ra.info.labels ≠ [] → lastStatedLabels h.events id = some ra.info.labels)) ∧
    (∀ name, name ∈ snap.nodes.map TopologyNode.name ↔ (∃ id, Hosts h.registry id name) ∧
      ¬ ∃ id, Hosts h.registry id name ∧ ((lastStatedLabels h.events id).getD []).external = true) ∧
    (snap.nodes.map TopologyNode.name).Nodup := by
  intro h snap
  have registers : ∀ op ∈ ops, op.Registers (homeOf (registrations ops)) := by
    intro op hop info hinfo
    have mem : info ∈ registrations ops := List.mem_filterMap.mpr ⟨op, hop, hinfo⟩
    exact ⟨(valid info mem).1, (valid info mem).2, homeOf_eq same mem⟩
  have told := Told.run ttl registers
  have replayed : Replayed h.events (foldState stamped) :=
    recorded ▸ replayed_foldState stamped (recorded ▸ told.attributed)
  have placed := replayed.hosts told
  refine ⟨fun a => ?_, nodup_snapshot_agents _ _, fun id ra hra => ?_, fun name => ?_,
    nodup_snapshot_nodes _ _⟩
  · refine (mem_snapshot_agents (foldState stamped) _ a).trans ?_
    rw [placed]
    simp [h]
  · exact ⟨lastStatedZone_of_live told hra, lastStatedLabels_of_live told hra⟩
  · refine (mem_snapshot_nodes (foldState stamped) _ name).trans ?_
    rw [replayed.nodes, mem_bareHosts]
    simp only [placed, Option.map_eq_some_iff, Hosts]
    refine and_congr ⟨?_, ?_⟩ (not_congr ⟨?_, ?_⟩)
    · rintro ⟨id, p, ⟨a, ha, rfl⟩, node⟩
      exact ⟨id, a, ha, node⟩
    · rintro ⟨id, a, ha, node⟩
      exact ⟨id, _, ⟨a, ha, rfl⟩, node⟩
    · rintro ⟨id, p, ⟨a, ha, rfl⟩, node, external⟩
      exact ⟨id, ⟨a, ha, node⟩, external⟩
    · rintro ⟨id, ⟨a, ha, node⟩, external⟩
      exact ⟨id, _, ⟨a, ha, rfl⟩, node, external⟩

/-- A node whose zone label appears after the agent registered and is removed again. -/
def zoneRemoved : List Op :=
  [.register none 0 { id := "a", nodeName := "n", zone := "", labels := [("role", "edge")] },
   .updateZone "n" "z", .updateZone "n" ""]

def zoneRemovedRows : List (Nat × TopologyChanged) := (History.run 60 zoneRemoved).events.map (0, ·)

theorem foldTopology_refines_zoneRemoved :
    (foldTopology (zoneRemovedRows.map fun p => rowOf p.1 p.2)).nodes.map TopologyNode.name =
      ["n"] ∧ (⟨"a", "n", "z", "", some [("role", "edge")]⟩ : TopologyAgent) ∈
        (foldTopology (zoneRemovedRows.map fun p => rowOf p.1 p.2)).agents := by
  have refines :=
    foldTopology_refines 60 zoneRemoved zoneRemovedRows (by decide) (by decide) (by decide)
  refine ⟨by decide, (refines.1 _).mpr ⟨?_, ?_⟩⟩
  · exact ⟨{ id := "a", nodeName := "n", zone := "", labels := [("role", "edge")] }, 0, false⟩
  · decide

/-- The fold and the registry agree on every agent's node, zone and labels and on the nodes. -/
def Agrees (r : Registry) (snap : TopologySnapshot) : Prop :=
  (∀ a, a ∈ snap.agents ↔ ∃ ra, r.agents.lookup a.id = some ra ∧ a.nodeName = ra.info.nodeName ∧
    a.zone = ra.info.zone ∧ a.podIP = "" ∧
    a.labels = if ra.info.labels = [] then none else some ra.info.labels) ∧
  ∀ name, name ∈ snap.nodes.map TopologyNode.name ↔ (∃ id, Hosts r id name) ∧
    ¬ ∃ id ra, r.agents.lookup id = some ra ∧ ra.info.nodeName = name ∧ ra.info.isExternal = true

/-- The registry drops the zone, the fold keeps the last one stated. -/
theorem zoneRemoved_not_agrees : (∀ i ∈ registrations zoneRemoved, ∀ j ∈ registrations zoneRemoved,
      i.id = j.id → i.nodeName = j.nodeName) ∧
    zoneRemovedRows.map Prod.snd = (History.run 60 zoneRemoved).events ∧
    ¬ Agrees (History.run 60 zoneRemoved).registry
      (foldTopology (zoneRemovedRows.map fun p => rowOf p.1 p.2)) := by
  refine ⟨by decide, by decide, fun agrees => ?_⟩
  have listed : (⟨"a", "n", "z", "", some [("role", "edge")]⟩ : TopologyAgent) ∈
      (foldTopology (zoneRemovedRows.map fun p => rowOf p.1 p.2)).agents := by decide
  obtain ⟨ra, hra, -, zone, -⟩ := (agrees.1 _).mp listed
  have held : (History.run 60 zoneRemoved).registry.agents.lookup "a" =
      some ⟨{ id := "a", nodeName := "n", zone := "", labels := [("role", "edge")] }, 0, false⟩ :=
        by
    decide
  rw [held] at hra
  cases hra
  exact absurd zone (by decide)

end Kconmon.Console
