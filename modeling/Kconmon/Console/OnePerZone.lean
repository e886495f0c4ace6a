import Kconmon.Console.Selections
import Kconmon.Lib.Leaders
import Kconmon.Lib.Tables

/-!
# One agent of each zone

The reconciler first reduces a snapshot to one agent for each node, the one with the
least id, and then takes the first node of each zone; the scheduler takes the first node
of each zone over all agents, and the projection guard counts all zones. They agree
exactly when the first node of every zone is one that the reduction leaves in that zone.
-/
namespace Kconmon.Console.Assign
open Lib AgentRefs

/-! ## The agents that stand for their nodes -/

/-- The agent that `agentRefs` takes for a node: the least id, the first listed among equals. -/
def standing (topo : Topology) (node : String) : Option Agent :=
  (topo.agents.filter fun a => a.id ≠ "" ∧ a.nodeName ≠ "" ∧ a.nodeName = node).argmin Agent.id

/-- In every zone, the least node name is that of a node whose agent stands in that zone. -/
def FirstNodesStand (topo : Topology) : Prop :=
  ∀ a ∈ topo.agents, (∀ b ∈ topo.agents, b.zone = a.zone → a.nodeName ≤ b.nodeName) →
    ∃ b, standing topo a.nodeName = some b ∧ b.zone = a.zone

variable {topo : Topology}

variable {node : String}

theorem standing_spec {b : Agent} (stands : standing topo node = some b) :
    b ∈ topo.agents ∧ b.id ≠ "" ∧ b.nodeName ≠ "" ∧ b.nodeName = node := by
  have mem := List.argmin_mem stands
  simpa using mem

/-- The reference and the id that the two maps hold for a node. -/
def AgentRefs.at (r : AgentRefs) (node : String) : Option AgentRef × Option String :=
  (r.byNode.lookup node, r.agentIDByNode.lookup node)

/-- What the two maps hold for a node that `o` stands for. -/
def Agent.filed (o : Option Agent) : Option AgentRef × Option String :=
  (o.map fun a => ⟨a.nodeName, a.zone⟩, o.map Agent.id)

theorem AgentRefs.visit_at_other (r : AgentRefs) (a : Agent) (differ : node ≠ a.nodeName) :
    (r.visit a).at node = r.at node := by
  have kept : (r.take a).at node = r.at node := by
    simp [AgentRefs.take, AgentRefs.at, AList.lookup_insert_ne differ]
  unfold AgentRefs.visit
  grind

/-- An agent takes the place of the one with a greater id. -/
theorem AgentRefs.visit_at_own {r : AgentRefs} {a : Agent} (named : a.id ≠ "" ∧ a.nodeName ≠ "")
    {o : Option Agent} (held : r.at a.nodeName = Agent.filed o) :
    (r.visit a).at a.nodeName = Agent.filed (List.argAux (fun b c => b.id < c.id) o a) := by
  have taken : (r.take a).at a.nodeName = Agent.filed (some a) := by
    simp [AgentRefs.take, AgentRefs.at, Agent.filed]
  have cur : r.agentIDByNode.lookup a.nodeName = o.map Agent.id := congrArg Prod.snd held
  rw [AgentRefs.visit, if_neg (by simp [named]), cur]
  cases o with
  | none => exact taken
  | some c =>
    simp only [Option.map_some, List.argAux]
    by_cases less : a.id < c.id
    · rwa [if_neg (not_le.mpr less), if_pos less]
    · rwa [if_pos (not_lt.mp less), if_neg less]

theorem foldl_visit_at {l : List Agent} (named : ∀ a ∈ l, a.id ≠ "" ∧ a.nodeName ≠ "")
    (node : String) (r : AgentRefs) (o : Option Agent) (held : r.at node = Agent.filed o) :
    (l.foldl visit r).at node = Agent.filed
      ((l.filter (·.nodeName = node)).foldl (List.argAux fun b c => b.id < c.id) o) := by
  induction l generalizing r o with
  | nil => exact held
  | cons a l ih =>
    have ih := ih fun b hb => named b (List.mem_cons_of_mem a hb)
    rw [List.foldl_cons]
    by_cases same : a.nodeName = node
    · subst same
      rw [List.filter_cons_of_pos (by simp), List.foldl_cons]
      exact ih _ _ (visit_at_own (named a (by simp)) held)
    · rw [List.filter_cons_of_neg (by simpa using same)]
      exact ih _ _ ((r.visit_at_other a (Ne.symm same)).trans held)

theorem agentRefs_at (topo : Topology) (node : String) :
    (topo.agents.foldl visit {}).at node = Agent.filed (standing topo node) := by
  let named : Agent → Bool := fun a => a.id ≠ "" ∧ a.nodeName ≠ ""
  have skip : topo.agents.foldl visit {} = (topo.agents.filter named).foldl visit {} := by
    rw [List.foldl_filter]
    congr 1
    funext r a
    unfold visit
    grind
  rw [skip, foldl_visit_at (by simp [named]) node {} none rfl, List.filter_filter, standing,
    List.argmin]
  congr 3
  funext a
  grind

theorem lookup_byNode {r : AgentRef} : (topo.agents.foldl visit {}).byNode.lookup node = some r ↔
      r.nodeName = node ∧ ∃ b, standing topo node = some b ∧ r.zone = b.zone := by
  have held : (topo.agents.foldl visit {}).byNode.lookup node = _ :=
    congrArg Prod.fst (agentRefs_at topo node)
  rw [held]
  simp only [Agent.filed, Option.map_eq_some_iff]
  constructor
  · rintro ⟨b, stands, rfl⟩
    exact ⟨(standing_spec stands).2.2.2, b, stands, rfl⟩
  · rintro ⟨rfl, b, stands, zone⟩
    exact ⟨b, stands, by rw [(standing_spec stands).2.2.2, ← zone]⟩

theorem mem_agentRefs {r : AgentRef} :
    r ∈ (agentRefs topo).1 ↔ ∃ b, standing topo r.nodeName = some b ∧ r.zone = b.zone := by
  have listed : r ∈ (agentRefs topo).1 ↔
      ∃ node, (topo.agents.foldl visit {}).byNode.lookup node = some r :=
    (List.mem_insertionSort _).trans GoMap.mem_values
  rw [listed]
  constructor
  · rintro ⟨node, held⟩
    obtain ⟨rfl, stands⟩ := lookup_byNode.mp held
    exact stands
  · intro stands
    exact ⟨r.nodeName, lookup_byNode.mpr ⟨rfl, stands⟩⟩

theorem agentRefs_sorted (topo : Topology) :
    (agentRefs topo).1.Pairwise fun a b => a.nodeName < b.nodeName := by
  let byNode := (topo.agents.foldl visit {}).byNode
  have names : (((agentRefs topo).1).map AgentRef.nodeName).Nodup := by
    have order := (List.perm_insertionSort (fun a b : AgentRef => a.nodeName ≤ b.nodeName)
      (GoMap.values byNode)).map AgentRef.nodeName
    exact order.nodup_iff.mpr (GoMap.nodup_map_values fun _ _ held => (lookup_byNode.mp held).1)
  have sorted := List.pairwise_insertionSort (fun a b : AgentRef => a.nodeName ≤ b.nodeName)
    (GoMap.values byNode)
  exact (sorted.and (List.pairwise_map.mp names)).imp fun ⟨le, ne⟩ => lt_of_le_of_ne le ne

/-! ## The first node of each zone -/

variable {l : List AgentRef}

theorem dropRepeats_eq_self (sorted : l.Pairwise fun a b => a.nodeName < b.nodeName)
    {prev : Option AgentRef} (before : ∀ p ∈ prev, ∀ a ∈ l, p.nodeName < a.nodeName) :
    dropRepeats prev l = l := by
  induction l generalizing prev with
  | nil => rfl
  | cons a l ih =>
    obtain ⟨first, sorted⟩ := List.pairwise_cons.mp sorted
    have differ : prev.any (·.nodeName = a.nodeName) = false := by
      cases prev with
      | none => rfl
      | some p => simpa using (before p rfl a (by simp)).ne
    rw [dropRepeats, differ, ih sorted (by simpa using first)]
    simp

theorem normalizeAgents_eq_self (named : ∀ a ∈ l, a.nodeName ≠ "")
    (sorted : l.Pairwise fun a b => a.nodeName < b.nodeName) : normalizeAgents l = l := by
  have all : l.filter (·.nodeName ≠ "") = l := List.filter_eq_self.mpr (by simpa using named)
  have order : l.insertionSort (fun a b => a.nodeName ≤ b.nodeName) = l :=
    (sorted.imp le_of_lt).insertionSort_eq
  rw [normalizeAgents, all, order]
  exact dropRepeats_eq_self sorted (by simp)

variable {n : String}

/-- A loop that has not seen a zone yet picks the first node it meets there. -/
theorem mem_foldl_pickZone {acc : GoMap String Unit × List String} : n ∈ (l.foldl pickZone acc).2 ↔
      n ∈ acc.2 ∨ ∃ z a, acc.1.lookup z = none ∧ l.find? (·.zone = z) = some a ∧ a.nodeName = n :=
        by
  induction l generalizing acc with
  | nil => simp
  | cons a l ih =>
    have later : ∀ z, z ≠ a.zone → (a :: l).find? (·.zone = z) = l.find? (·.zone = z) :=
      fun z differ => List.find?_cons_of_neg (by simpa using Ne.symm differ)
    rw [List.foldl_cons, ih]
    cases seen : acc.1.lookup a.zone with
    | some u =>
      have skipped : pickZone acc a = acc := by simp [pickZone, seen]
      rw [skipped]
      grind
    | none =>
      have picked : pickZone acc a = (AList.insert a.zone () acc.1, acc.2 ++ [a.nodeName]) := by
        simp [pickZone, seen]
      have own : (a :: l).find? (·.zone = a.zone) = some a := List.find?_cons_of_pos (by simp)
      rw [picked]
      simp only [GoMap.lookup_insert_if, List.mem_append, List.mem_singleton]
      grind

variable {z : String}

/-- In a list sorted by name, the first entry of a zone has its least name. -/
theorem find?_zone_least (sorted : l.Pairwise fun a b => a.nodeName < b.nodeName) {a : AgentRef}
    (found : l.find? (·.zone = z) = some a) {b : AgentRef} (hb : b ∈ l) (zone : b.zone = z) :
    a.nodeName ≤ b.nodeName := by
  obtain ⟨-, before, after, rfl, none_before⟩ := List.find?_eq_some_iff_append.mp found
  obtain ⟨-, sorted, -⟩ := List.pairwise_append.mp sorted
  rcases List.mem_append.mp hb with early | late
  · simpa [zone] using none_before b early
  · rcases List.mem_cons.mp late with rfl | late
    · exact le_rfl
    · exact ((List.pairwise_cons.mp sorted).1 b late).le

theorem find?_zone_iff (sorted : l.Pairwise fun a b => a.nodeName < b.nodeName) :
    (∃ a, l.find? (·.zone = z) = some a ∧ a.nodeName = n) ↔
      (z, n) ∈ leaders (l.map fun a => (a.zone, a.nodeName)).toFinset := by
  simp only [mem_leaders, List.mem_toFinset, List.mem_map, Prod.mk.injEq]
  constructor
  · rintro ⟨a, found, rfl⟩
    have zone := List.find?_some found
    refine ⟨⟨a, List.mem_of_find?_eq_some found, by simpa using zone, rfl⟩, ?_⟩
    rintro _ ⟨b, hb, rfl⟩ same
    exact find?_zone_least sorted found hb same
  · rintro ⟨⟨a, ha, rfl, rfl⟩, least⟩
    have some_found : (l.find? (·.zone = a.zone)).isSome := List.find?_isSome.mpr ⟨a, ha, by simp⟩
    obtain ⟨b, found⟩ := Option.isSome_iff_exists.mp some_found
    have zone := List.find?_some found
    refine ⟨b, found, le_antisymm (find?_zone_least sorted found ha rfl) ?_⟩
    exact least (b.zone, b.nodeName) ⟨b, List.mem_of_find?_eq_some found, rfl⟩ (by simpa using zone)

theorem mem_firsts {l : List (String × String)} :
    n ∈ firsts l.toFinset ↔ ∃ z, (z, n) ∈ leaders l.toFinset := by
  simp [firsts]

theorem toFinset_assignedAgents (sorted : l.Pairwise fun a b => a.nodeName < b.nodeName) :
    (assignedAgents .onePerZone l).toFinset =
      firsts (l.map fun a => (a.zone, a.nodeName)).toFinset := by
  ext n
  rw [mem_firsts, List.mem_toFinset, assignedAgents, if_neg (by simp), mem_foldl_pickZone]
  simp only [← find?_zone_iff sorted]
  simp

/-! ## What is assigned -/

variable {s : AssignedSpec}

theorem mem_assignOne {sorted : List AgentRef} {acc : GoMap String (List AssignedSpec) × Nat}
    {d : Definition} :
    s ∈ ((assignOne sorted acc d).1.lookup n).getD [] ↔ s ∈ (acc.1.lookup n).getD [] ∨
      (d.enabled = true ∧ n ∈ assignedAgents d.selection sorted ∧ s = d.assignedSpec) := by
  cases on : d.enabled with
  | false => simp [assignOne, on]
  | true =>
    have appended := GoMap.lookup_foldl_append (fun id : String => id) (fun _ => d.assignedSpec)
      (assignedAgents d.selection sorted) acc.1 n
    simp only [assignOne, on, Bool.true_eq_false, ↓reduceIte, true_and]
    rw [appended]
    simp

variable {defs : List Definition}

theorem mem_foldl_assignOne {sorted : List AgentRef}
    {acc : GoMap String (List AssignedSpec) × Nat} :
    s ∈ ((defs.foldl (assignOne sorted) acc).1.lookup n).getD [] ↔ s ∈ (acc.1.lookup n).getD [] ∨
      ∃ d ∈ defs, d.enabled = true ∧ n ∈ assignedAgents d.selection sorted ∧ s = d.assignedSpec :=
        by
  induction defs generalizing acc with
  | nil => simp
  | cons d defs ih =>
    rw [List.foldl_cons, ih, mem_assignOne]
    simp [or_assoc]

theorem lookup_assignments (specsByAgent : GoMap String (List AssignedSpec)) (n : String) :
    (specsByAgent.entries.foldl (fun out e => AList.insert e.1
        (⟨e.1, e.2.insertionSort fun a b => a.definitionID ≤ b.definitionID⟩ : Assignment) out)
      (∅ : GoMap String Assignment)).lookup n =
      (specsByAgent.lookup n).map fun specs =>
        ⟨n, specs.insertionSort fun a b => a.definitionID ≤ b.definitionID⟩ := by
  have stored := GoMap.lookup_foldl_entries (fun (id : String) specs =>
    (⟨id, specs.insertionSort fun a b => a.definitionID ≤ b.definitionID⟩ : Assignment))
    specsByAgent.entries specsByAgent.nodupKeys ∅ n
  have held : specsByAgent.entries.dlookup n = specsByAgent.lookup n := rfl
  rw [stored, held]
  cases specsByAgent.lookup n <;> simp

/-- The specs that agents are assigned are those of the definitions. -/
theorem mem_specs_assignAgents {agents : List AgentRef} {out : GoMap String Assignment}
    {series : Nat} (ok : assignAgents defs agents = .ok (out, series)) {a : Assignment}
    (held : out.lookup n = some a) (listed : s ∈ a.specs) : ∃ d ∈ defs, s = d.assignedSpec := by
  rw [assignAgents] at ok
  split at ok
  · cases ok
  · simp only at ok
    split at ok
    · cases ok
      simp at held
    · split at ok <;> cases ok
      rw [lookup_assignments] at held
      obtain ⟨specs, found, rfl⟩ := Option.map_eq_some_iff.mp held
      have member := (List.mem_insertionSort _).mp listed
      have filed : s ∈ ((defs.foldl (assignOne (normalizeAgents agents))
          (∅, 0)).1.lookup n).getD [] := by
        rw [found]
        exact member
      rcases mem_foldl_assignOne.mp filed with absent | ⟨d, hd, -, -, same⟩
      · simp at absent
      · exact ⟨d, hd, same⟩

/-- The nodes that have a check of the definition, none when nothing could be assigned. -/
def assignedNodes (assigned : Except AssignError (GoMap String Assignment × Nat))
    (definitionID : String) : Finset String :=
  match assigned with
  | .error _ => ∅
  | .ok (out, _) => (out.entries.filter fun e =>
      e.2.specs.any (·.definitionID = definitionID)).map Sigma.fst |>.toFinset

/-- The nodes that a run is dispatched from, none when the scheduler starts no run. -/
def sourceNodes (sources : Except String (List String)) : Finset String :=
  match sources with
  | .error _ => ∅
  | .ok nodes => nodes.toFinset

/-- Every selection is one of the three that there are. -/
def Recognised (defs : List Definition) : Prop :=
  ∀ d ∈ defs, d.selection = .all ∨ d.selection = .perZone ∨ d.selection = .onePerZone

theorem mem_assignedNodes_ok {out : GoMap String Assignment} {series : Nat} {id : String} :
    n ∈ assignedNodes (.ok (out, series)) id ↔
      ∃ a, out.lookup n = some a ∧ ∃ s ∈ a.specs, s.definitionID = id := by
  simp only [assignedNodes, List.mem_toFinset, List.mem_map, List.mem_filter, List.any_eq_true,
    decide_eq_true_eq, Sigma.exists, exists_and_right, exists_eq_right]
  simp only [← AList.mem_lookup_iff, Option.mem_def]

/-- A definition of its own id is assigned to the nodes its selection resolves to. -/
theorem assignedNodes_assignAgents (recognised : Recognised defs)
    (distinct : (defs.map Definition.id).Nodup) {d : Definition} (listed : d ∈ defs)
    (enabled : d.enabled = true) (agents : List AgentRef) :
    assignedNodes (assignAgents defs agents) d.id =
      (assignedAgents d.selection (normalizeAgents agents)).toFinset := by
  have known : defs.find? (fun d => ¬ (d.selection = .all ∨ d.selection = .perZone ∨
      d.selection = .onePerZone)) = none :=
    List.find?_eq_none.mpr fun d hd odd => absurd (recognised d hd) (of_decide_eq_true odd)
  have some_enabled : defs.countP (·.enabled) ≠ 0 := by
    rw [Ne, List.countP_eq_zero]
    exact fun none => none d listed enabled
  rw [assignAgents, known]
  simp only [some_enabled, ↓reduceIte]
  split
  · rename_i empty
    rw [List.length_eq_zero_iff.mp empty]
    simp [assignedNodes, assignedAgents]
  · ext n
    let specsByAgent := (defs.foldl (assignOne (normalizeAgents agents)) (∅, 0)).1
    have specs : (∃ s ∈ (specsByAgent.lookup n).getD [], s.definitionID = d.id) ↔
        n ∈ assignedAgents d.selection (normalizeAgents agents) := by
      simp only [specsByAgent, mem_foldl_assignOne]
      constructor
      · rintro ⟨s, absent | ⟨d', listed', -, assigned, rfl⟩, same⟩
        · simp at absent
        · rwa [List.inj_on_of_nodup_map distinct listed' listed same] at assigned
      · intro assigned
        exact ⟨d.assignedSpec, .inr ⟨d, listed, enabled, assigned, rfl⟩, rfl⟩
    rw [mem_assignedNodes_ok, lookup_assignments, List.mem_toFinset, ← specs]
    cases specsByAgent.lookup n <;> simp

/-! ## What the scheduler and the guard see -/

/-- The zone and node of every agent. -/
def filed (topo : Topology) : List (String × String) :=
    topo.agents.map fun a => (a.zone, a.nodeName)

/-- The lesser of a name and the node name of an agent. -/
def nearer (o : Option String) (a : Agent) : Option String :=
  match o with
  | some cur => if a.nodeName < cur then some a.nodeName else some cur
  | none => some a.nodeName

theorem foldl_nearer (l : List Agent) (o : Option Agent) : l.foldl nearer (o.map Agent.nodeName) =
    (l.foldl (List.argAux fun b c => b.nodeName < c.nodeName) o).map Agent.nodeName := by
  induction l generalizing o with
  | nil => rfl
  | cons a l ih =>
    rw [List.foldl_cons, List.foldl_cons, ← ih]
    congr 1
    cases o with
    | none => rfl
    | some c =>
      simp only [nearer, Option.map_some, List.argAux]
      split <;> rfl

theorem lookup_firstNode (topo : Topology) (z : String) : (topo.agents.foldl firstNode ∅).lookup z =
      ((topo.agents.filter (·.zone = z)).argmin Agent.nodeName).map Agent.nodeName := by
  have own : ∀ m a, (firstNode m a).lookup a.zone = nearer (m.lookup a.zone) a := by
    intro m a
    unfold firstNode nearer
    grind [AList.lookup_insert]
  have other : ∀ m a z, z ≠ a.zone → (firstNode m a).lookup z = m.lookup z := by
    intro m a z differ
    unfold firstNode
    grind [AList.lookup_insert_ne]
  rw [foldl_by_key (fun (m : GoMap String String) z => m.lookup z) own other]
  exact foldl_nearer _ none

theorem sourceNodes_sourcesFor (topo : Topology) :
    sourceNodes (sourcesFor .onePerZone (.ok topo)) = firsts (filed topo).toFinset := by
  ext n
  have chosen : (∃ z, (topo.agents.foldl firstNode ∅).lookup z = some n) ↔
      n ∈ firsts (filed topo).toFinset := by
    simp only [mem_firsts, filed, mem_leaders_toFinset, lookup_firstNode]
  rw [← chosen, ← GoMap.mem_values, sourcesFor, if_neg (by simp)]
  simp only
  split
  · rename_i empty
    simp [sourceNodes, GoMap.values, List.length_eq_zero_iff.mp empty]
  · rw [sourceNodes, List.mem_toFinset]
    exact List.mem_insertionSort _

theorem projectedAgents_onePerZone (topo : Topology) :
    projectedAgents .onePerZone (some topo) = (classes (filed topo).toFinset).card := by
  let zones : GoMap String Unit := GoMap.ofKeys (topo.agents.map Agent.zone) ()
  have keys : zones.keys.toFinset = classes (filed topo).toFinset := by
    ext z
    rw [List.mem_toFinset, ← AList.mem_keys, ← AList.lookup_isSome]
    simp [zones, classes, filed]
  calc projectedAgents .onePerZone (some topo)
      _ = zones.keys.length := by simp [projectedAgents, zones, AList.keys, List.keys]
      _ = zones.keys.toFinset.card := (List.toFinset_card_of_nodup zones.nodupKeys).symm
      _ = (classes (filed topo).toFinset).card := by rw [keys]

/-! ## Agreement -/

/-- The zone and node of every agent that stands for its node. -/
def kept (topo : Topology) : List (String × String) :=
  (agentRefs topo).1.map fun r => (r.zone, r.nodeName)

theorem mem_kept : (z, n) ∈ kept topo ↔ ∃ b, standing topo n = some b ∧ b.zone = z := by
  simp only [kept, List.mem_map, Prod.mk.injEq, mem_agentRefs]
  constructor
  · rintro ⟨r, ⟨b, stands, zone⟩, rfl, rfl⟩
    exact ⟨b, stands, zone.symm⟩
  · rintro ⟨b, stands, rfl⟩
    exact ⟨⟨n, b.zone⟩, ⟨b, stands, rfl⟩, rfl, rfl⟩

theorem kept_subset (topo : Topology) : (kept topo).toFinset ⊆ (filed topo).toFinset := by
  rintro ⟨z, n⟩ listed
  obtain ⟨b, stands, rfl⟩ := mem_kept.mp (List.mem_toFinset.mp listed)
  obtain ⟨hb, -, -, rfl⟩ := standing_spec stands
  exact List.mem_toFinset.mpr (List.mem_map.mpr ⟨b, hb, rfl⟩)

theorem leaders_subset_kept_iff :
    leaders (filed topo).toFinset ⊆ (kept topo).toFinset ↔ FirstNodesStand topo := by
  have leads : ∀ a ∈ topo.agents, ((a.zone, a.nodeName) ∈ leaders (filed topo).toFinset ↔
      ∀ b ∈ topo.agents, b.zone = a.zone → a.nodeName ≤ b.nodeName) := by
    intro a ha
    simp only [mem_leaders, filed, List.mem_toFinset, List.mem_map]
    constructor
    · rintro ⟨-, least⟩ b hb zone
      exact least _ ⟨b, hb, rfl⟩ zone
    · intro least
      refine ⟨⟨a, ha, rfl⟩, ?_⟩
      rintro _ ⟨b, hb, rfl⟩ zone
      exact least b hb zone
  constructor
  · intro included a ha least
    exact mem_kept.mp (List.mem_toFinset.mp (included ((leads a ha).mpr least)))
  · rintro stand ⟨z, n⟩ leader
    have listed := List.mem_toFinset.mp (leaders_subset leader)
    obtain ⟨a, ha, same⟩ := List.mem_map.mp listed
    obtain ⟨rfl, rfl⟩ := Prod.mk.inj same
    exact List.mem_toFinset.mpr (mem_kept.mpr (stand a ha ((leads a ha).mp leader)))

/-- A one-per-zone definition is assigned to the nodes that its scheduled runs start from, as
many as the projection counts, exactly when the first node of every zone stands there. -/
theorem onePerZone_agree_iff {defs : List Definition} (recognised : Recognised defs)
    (distinct : (defs.map Definition.id).Nodup) {d : Definition} (listed : d ∈ defs)
    (enabled : d.enabled = true) (one : d.selection = .onePerZone) (topo : Topology) :
    (assignedNodes (assignAgents defs (agentRefs topo).1) d.id =
        sourceNodes (sourcesFor d.selection (.ok topo)) ∧
      (assignedNodes (assignAgents defs (agentRefs topo).1) d.id).card =
        projectedAgents d.selection (some topo)) ↔ FirstNodesStand topo := by
  have named : ∀ r ∈ (agentRefs topo).1, r.nodeName ≠ "" := by
    intro r hr
    obtain ⟨b, stands, -⟩ := mem_agentRefs.mp hr
    obtain ⟨-, -, named, same⟩ := standing_spec stands
    exact same ▸ named
  have assigned : assignedNodes (assignAgents defs (agentRefs topo).1) d.id =
      firsts (kept topo).toFinset := by
    rw [assignedNodes_assignAgents recognised distinct listed enabled, one,
      normalizeAgents_eq_self named (agentRefs_sorted topo)]
    exact toFinset_assignedAgents (agentRefs_sorted topo)
  have functional : ∀ p ∈ (kept topo).toFinset, ∀ q ∈ (kept topo).toFinset, p.2 = q.2 → p = q := by
    rintro ⟨z, n⟩ hp ⟨z', n'⟩ hq (rfl : n = n')
    obtain ⟨b, stands, rfl⟩ := mem_kept.mp (List.mem_toFinset.mp hp)
    obtain ⟨b', stands', rfl⟩ := mem_kept.mp (List.mem_toFinset.mp hq)
    cases stands.symm.trans stands'
    rfl
  rw [assigned, one, sourceNodes_sourcesFor, projectedAgents_onePerZone,
    firsts_agree_iff (kept_subset topo) functional, leaders_subset_kept_iff]

/-- The old and the new agent of a node whose zone label has changed. -/
def overlap : Topology where
  agents := [⟨"a1", "n1", "east", []⟩, ⟨"a2", "n1", "west", []⟩, ⟨"a3", "n2", "west", []⟩]

def spread : Topology where
  agents := [⟨"a1", "n1", "east", []⟩, ⟨"a2", "n1", "east", []⟩, ⟨"a3", "n2", "west", []⟩]

def edgeCheck : Definition where
  id := "d1"
  selection := .onePerZone
  enabled := true

theorem onePerZone_agree_iff_spread :
    assignedNodes (assignAgents [edgeCheck] (agentRefs spread).1) "d1" =
        sourceNodes (sourcesFor .onePerZone (.ok spread)) ∧
      (assignedNodes (assignAgents [edgeCheck] (agentRefs spread).1) "d1").card =
        projectedAgents .onePerZone (some spread) := by
  have recognised : Recognised [edgeCheck] := by simp [Recognised, edgeCheck]
  have stand : FirstNodesStand spread := by
    have east : standing spread "n1" = some ⟨"a1", "n1", "east", []⟩ := by decide
    have west : standing spread "n2" = some ⟨"a3", "n2", "west", []⟩ := by decide
    intro a ha _
    simp only [spread, List.mem_cons, List.not_mem_nil, or_false] at ha
    rcases ha with rfl | rfl | rfl
    · exact ⟨_, east, rfl⟩
    · exact ⟨_, east, rfl⟩
    · exact ⟨_, west, rfl⟩
  exact (onePerZone_agree_iff (d := edgeCheck) recognised (by simp) (by simp) rfl rfl spread).mpr
    stand

/-- The reconciler assigns the check to both nodes; the scheduler runs it from the first alone,
which is the least node name of both zones. -/
theorem onePerZone_disagree_overlap :
    assignedNodes (assignAgents [edgeCheck] (agentRefs overlap).1) "d1" = {"n1", "n2"} ∧
      sourceNodes (sourcesFor .onePerZone (.ok overlap)) = {"n1"} ∧
      projectedAgents .onePerZone (some overlap) = 2 := by
  decide

end Kconmon.Console.Assign
