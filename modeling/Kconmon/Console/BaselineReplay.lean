import Kconmon.Console.Mentions
import Kconmon.Console.TimeMachine

/-!
# Replaying the overlap after a baseline

A reconstruction starts from the newest baseline and replays the rows recorded
a little before it as well. Agents survive this: each of their registers is last
write wins. Nodes do not always: a replayed registration sets the ready flag
that the baseline denies, and a replayed removal takes away a node that the
baseline lists without an agent.
-/
namespace Kconmon.Console
open Lib Model Controller FoldState

/-! ## States that agree -/

/-- The two maps agree entry by entry. -/
structure Alike (s t : FoldState) : Prop where
  nodes : ∀ name, s.nodes.lookup name = t.nodes.lookup name
  agents : ∀ id, s.agents.lookup id = t.agents.lookup id

namespace Alike

theorem stillPopulated {s t : FoldState} (alike : Alike s t) (d : TopologyChangeDetails) :
    s.StillPopulated d ↔ t.StillPopulated d := by
  simp only [stillPopulated_iff, host, alike.agents]

theorem perform {s t : FoldState} (alike : Alike s t) (act : Act) :
    Alike (s.perform act) (t.perform act) := by
  cases act with
  | inert => exact alike
  | place d =>
    refine ⟨fun name => ?_, fun id => ?_⟩
    · rw [lookup_nodes_place, lookup_nodes_place, alike.nodes]
    · rw [lookup_agents_place, lookup_agents_place, alike.agents]
  | remove d =>
    refine ⟨fun name => ?_, fun id => ?_⟩
    · simp only [lookup_nodes_remove, alike.stillPopulated, alike.nodes]
    · rw [lookup_agents_remove, lookup_agents_remove, alike.agents]

theorem step {s t : FoldState} (alike : Alike s t) (row : EventRecord) :
    Alike (s.step row) (t.step row) := by
  by_cases change : row.IsChange
  · have after := alike.perform row.act
    obtain ⟨nodes, agents⟩ := step_perform change s
    obtain ⟨nodes', agents'⟩ := step_perform change t
    refine ⟨fun name => ?_, fun id => ?_⟩
    · rw [nodes, nodes', after.nodes]
    · rw [agents, agents', after.agents]
  · obtain ⟨time, details⟩ := row
    cases details with
    | baseline b => exact ⟨fun _ => rfl, fun _ => rfl⟩
    | changed d => exact absurd nofun change
    | malformed => exact absurd nofun change

theorem run {s t : FoldState} (alike : Alike s t) (rows : List EventRecord) :
    Alike (rows.foldl FoldState.step s) (rows.foldl FoldState.step t) := by
  induction rows generalizing s t with
  | nil => exact alike
  | cons row rows ih => exact ih (alike.step row)

theorem bareHosts {s t : FoldState} (alike : Alike s t) (name : String) :
    name ∈ s.bareHosts ↔ name ∈ t.bareHosts := by
  simp only [mem_bareHosts, alike.agents]

end Alike

/-! ## The snapshot reads the maps only -/

/-- Lists sorted by a key that no two entries share are determined by their entries. -/
theorem eq_of_sorted {α : Type} (key : α → String) {l l' : List α}
    (distinct : ((l.insertionSort fun a b => ¬ key b < key a).map key).Nodup)
    (distinct' : ((l'.insertionSort fun a b => ¬ key b < key a).map key).Nodup)
    (same : ∀ a, a ∈ l.insertionSort (fun a b => ¬ key b < key a) ↔
      a ∈ l'.insertionSort fun a b => ¬ key b < key a) :
    l.insertionSort (fun a b => ¬ key b < key a) = l'.insertionSort fun a b => ¬ key b < key a := by
  have total : Std.Total fun a b : α => ¬ key b < key a :=
    ⟨fun a b => (le_total (key a) (key b)).imp not_lt.mpr not_lt.mpr⟩
  have trans : IsTrans α fun a b => ¬ key b < key a :=
    ⟨fun a b c hab hbc => not_lt.mpr (le_trans (not_lt.mp hab) (not_lt.mp hbc))⟩
  refine List.Perm.eq_of_pairwise ?_ (List.pairwise_insertionSort _ l)
    (List.pairwise_insertionSort _ l')
    ((List.perm_ext_iff_of_nodup distinct.of_map distinct'.of_map).mpr same)
  intro a b ha hb le ge
  exact List.inj_on_of_nodup_map distinct ha ((same b).mpr hb)
    (le_antisymm (not_lt.mp le) (not_lt.mp ge))

variable {s : FoldState}

theorem Alike.snapshot {t : FoldState} (alike : Alike s t) (n m : Nat) :
    (s.snapshot n).nodes = (t.snapshot m).nodes ∧ (s.snapshot n).agents = (t.snapshot m).agents :=
      by
  constructor
  · refine eq_of_sorted TopologyNode.name (nodup_snapshot_nodes s n) (nodup_snapshot_nodes t m) ?_
    intro node
    have listed := (mem_snapshot_nodes_iff s n node).trans
      (Iff.trans ?_ (mem_snapshot_nodes_iff t m node).symm)
    · exact listed
    · rw [alike.nodes, alike.bareHosts]
  · refine eq_of_sorted TopologyAgent.id (nodup_snapshot_agents s n) (nodup_snapshot_agents t m) ?_
    intro agent
    have listed := (mem_snapshot_agents s n agent).trans
      (Iff.trans ?_ (mem_snapshot_agents t m agent).symm)
    · exact listed
    · rw [alike.agents]

/-! ## Rows that silence every label -/

def hushed (id : String) : TopologyChangeDetails :=
  { reason := Reason.agentRegistered.text, agentID := id, labels := some [] }

/-- A row that moves an agent off its node and states an empty label map. -/
def hush (id : String) : EventRecord := ⟨0, .changed (hushed id)⟩

theorem isChange_hush (id : String) : (hush id).IsChange := nofun

theorem act_hush {id : String} (named : id ≠ "") : (hush id).act = .place (hushed id) := by
  simp [hush, hushed, EventRecord.act, TopologyChangeDetails.act, named]

variable {ids : List String}

section
variable (named : ∀ id ∈ ids, id ≠ "")
include named

theorem lookup_nodes_hush (s : FoldState) (name : String) :
    ((ids.map hush).foldl step s).nodes.lookup name = s.nodes.lookup name := by
  induction ids generalizing s with
  | nil => rfl
  | cons id ids ih =>
    obtain ⟨own, rest⟩ := List.forall_mem_cons.mp named
    have nodeless : ¬ ((hushed id).nodeName = name ∧ name ≠ "") := fun h => h.2 h.1.symm
    rw [List.map_cons, List.foldl_cons, ih rest, (step_perform (isChange_hush id) s).1,
      act_hush own, lookup_nodes_place, if_neg nodeless]

theorem agentLabels_hush (s : FoldState) (id : String) :
    agentLabels id ((ids.map hush).foldl step s) =
      if id ∈ ids then some [] else agentLabels id s := by
  induction ids generalizing s with
  | nil => rfl
  | cons first ids ih =>
    obtain ⟨own, rest⟩ := List.forall_mem_cons.mp named
    have written : agentLabels id (s.step (hush first)) =
        if id = first then some [] else agentLabels id s := by
      rw [agentLabels_lastWrite id s _ (isChange_hush first), writes, act_hush own]
      by_cases same : id = first
      · rw [if_pos same]
        exact congrArg (Option.getD · _) (if_pos ⟨same, same ▸ own⟩)
      · rw [if_neg same]
        exact congrArg (Option.getD · _) (if_neg fun h => same h.1)
    rw [List.map_cons, List.foldl_cons, ih rest, written]
    grind

/-- Once every agent is hushed no node counts as a bare host. -/
theorem bareHosts_hush
    (all : ∀ id, id ∉ ids → s.agents.lookup id = none) (name : String) :
    name ∉ ((ids.map hush).foldl step s).bareHosts := by
  intro bare
  obtain ⟨id, p, found, -, external⟩ := (mem_bareHosts _ _).mp bare
  have labels := agentLabels_hush named s id
  rw [agentLabels, found, Option.getD_some] at labels
  by_cases listed : id ∈ ids
  · rw [labels, if_pos listed] at external
    exact absurd external (by decide)
  · rw [labels, if_neg listed, agentLabels, all id listed] at external
    exact absurd external (by decide)

end

/-! ## A node that no row leaves behind -/

/-- Some row places an agent or a zone on the node. -/
def Placed (name : String) (rows : List EventRecord) : Prop :=
  ∃ row ∈ rows, ∃ d, row.act = .place d ∧ d.nodeName = name

variable {name : String} {rows : List EventRecord}

/-- Without a placement on the node its agents were there from the start. -/
theorem host_of_not_placed {id : String} (changes : ∀ row ∈ rows, row.IsChange)
    (none : ¬ Placed name rows)
    (final : host id (rows.foldl step s) = some name) : host id s = some name := by
  induction rows generalizing s with
  | nil => exact final
  | cons row rows ih =>
    obtain ⟨change, rest⟩ := List.forall_mem_cons.mp changes
    have later : ¬ Placed name rows := by
      rintro ⟨r, mem, d, h⟩
      exact none ⟨r, List.mem_cons_of_mem _ mem, d, h⟩
    have next := ih rest later final
    rw [host_lastWrite id s row change, writes] at next
    cases act : row.act with
    | inert => rwa [act] at next
    | place d =>
      rw [act] at next
      have other : d.nodeName ≠ name := fun same =>
        none ⟨row, List.mem_cons_self, d, act, same⟩
      dsimp only at next
      split_ifs at next
      · exact absurd (Option.some.inj next) other
      · exact next
    | remove d =>
      rw [act] at next
      dsimp only at next
      split_ifs at next
      · cases next
      · exact next

/-- `r` replays the rows on top of what `h` will become with them. Whatever node it ends up with,
`h` ends up with too, unless it had that node to begin with. -/
structure Shadows (name : String) (rows : List EventRecord) (r h : FoldState) : Prop where
  hosts : ∀ id, Ahead step (host id) rows r h
  node : name ∈ r.nodes → name ∈ h.nodes ∨ Placed name rows

theorem mem_nodes_iff (s : FoldState) (name : String) :
    name ∈ s.nodes ↔ s.nodes.lookup name ≠ none := by
  rw [Ne, AList.lookup_eq_none, not_not]

/-- A removal that the replay ignores and the history obeys is one whose node gets a new agent. -/
theorem Shadows.placed {row : EventRecord} {r h : FoldState} {d : TopologyChangeDetails}
    (shadows : Shadows name (row :: rows) r h) (changes : ∀ x ∈ row :: rows, x.IsChange)
    (act : row.act = .remove d) (same : d.nodeName = name) (stays : r.StillPopulated d)
    (goes : ¬ h.StillPopulated d) : Placed name rows := by
  obtain ⟨named, id, other, there⟩ := (stillPopulated_iff r d).mp stays
  have gone : host id h ≠ some name := fun sits =>
    goes ((stillPopulated_iff h d).mpr ⟨named, id, other, sits.trans (same ▸ rfl)⟩)
  have final : host id ((row :: rows).foldl step h) = some name := by
    rcases shadows.hosts id with now | final
    · exact absurd (now.symm.trans (there.trans (same ▸ rfl))) gone
    · exact final.symm.trans (there.trans (same ▸ rfl))
  by_contra unplaced
  refine gone (host_of_not_placed changes ?_ final)
  rintro ⟨x, mem, d', placed, node⟩
  rcases List.mem_cons.mp mem with rfl | mem
  · rw [act] at placed
    exact absurd placed nofun
  · exact unplaced ⟨x, mem, d', placed, node⟩

theorem Shadows.step {row : EventRecord} {r h : FoldState}
    (shadows : Shadows name (row :: rows) r h) (changes : ∀ x ∈ row :: rows, x.IsChange)
    (named : name ≠ "") : Shadows name rows (r.step row) (h.step row) := by
  have change := changes row List.mem_cons_self
  refine ⟨fun id => (host_lastWrite id).ahead_step change (shadows.hosts id), ?_⟩
  intro there
  rw [mem_nodes_iff, (step_perform change r).1] at there
  rw [mem_nodes_iff, (step_perform change h).1]
  -- the placements still to come, once the row at the head is none of them
  have rest (other : ∀ d, row.act = .place d → d.nodeName ≠ name) :
      r.nodes.lookup name ≠ none → h.nodes.lookup name ≠ none ∨ Placed name rows := by
    intro before
    refine (shadows.node ((mem_nodes_iff r name).mpr before)).imp (mem_nodes_iff h name).mp ?_
    rintro ⟨x, mem, d, placed, node⟩
    rcases List.mem_cons.mp mem with rfl | mem
    · exact absurd node (other d placed)
    · exact ⟨x, mem, d, placed, node⟩
  cases act : row.act with
  | inert =>
    rw [act] at there
    exact rest (fun d placed => absurd (act.symm.trans placed) nofun) there
  | place d =>
    rw [act, lookup_nodes_place] at there
    rw [lookup_nodes_place]
    by_cases same : d.nodeName = name
    · left
      rw [if_pos ⟨same, named⟩]
      exact Option.some_ne_none _
    · rw [if_neg fun h => same h.1] at there
      rw [if_neg fun h => same h.1]
      refine rest (fun d' placed node => ?_) there
      obtain rfl := Act.place.inj (act.symm.trans placed)
      exact same node
  | remove d =>
    have before := rest fun d' placed => absurd (act.symm.trans placed) nofun
    rw [act, lookup_nodes_remove] at there
    rw [lookup_nodes_remove]
    by_cases goes : d.nodeName = name ∧ ¬ h.StillPopulated d
    · have stays : r.StillPopulated d := by
        by_contra leaves
        exact there (if_pos ⟨goes.1, leaves⟩)
      exact Or.inr (shadows.placed changes act goes.1 stays goes.2)
    · rw [if_neg goes]
      split_ifs at there
      · exact absurd rfl there
      · exact before there

theorem Shadows.run {r h : FoldState} (shadows : Shadows name rows r h)
    (changes : ∀ row ∈ rows, row.IsChange) (named : name ≠ "")
    (there : name ∈ (rows.foldl FoldState.step r).nodes) :
    name ∈ (rows.foldl FoldState.step h).nodes := by
  induction rows generalizing r h with
  | nil => exact (shadows.node there).resolve_right fun ⟨_, mem, _⟩ => nomatch mem
  | cons row rows ih =>
    exact ih (shadows.step changes named) (List.forall_mem_cons.mp changes).2 there

theorem lookup_nodes_nameless (changes : ∀ row ∈ rows, row.IsChange)
    (absent : s.nodes.lookup "" = none) : (rows.foldl step s).nodes.lookup "" = none := by
  refine foldl_invariant (I := fun t : FoldState => t.nodes.lookup "" = none) absent ?_
  intro t row mem before
  rw [(step_perform (changes row mem) t).1]
  cases row.act with
  | inert => exact before
  | place d => rw [lookup_nodes_place, if_neg fun h => h.2 rfl, before]
  | remove d => rw [lookup_nodes_remove, before, ite_self]

/-! ## The overlap -/

/-- What a row makes of the empty fold; for a baseline, the sets it states. -/
def EventRecord.stated (row : EventRecord) : FoldState := FoldState.step {} row

/-- A baseline that states the sets of a snapshot: its agents, and its nodes with ready flags of
the baseline's own next to nodes that host no agent. -/
structure InForce (row : EventRecord) (snap : TopologySnapshot) : Prop where
  agents : ∀ id p, row.stated.agents.lookup id = some p ↔
    ⟨id, p.nodeName, p.zone, "", p.labels⟩ ∈ snap.agents
  listed : ∀ node ∈ snap.nodes, ∃ ready, row.stated.nodes.lookup node.name = some ⟨node.zone, ready⟩
  others : ∀ name ∈ row.stated.nodes, name ∈ snap.nodes.map TopologyNode.name ∨
    ∀ agent ∈ snap.agents, agent.nodeName ≠ name

/-- The same read off the entries, so that it can be evaluated. -/
theorem InForce.of_entries {row : EventRecord} {snap : TopologySnapshot}
    (agents : (∀ e ∈ row.stated.agents.entries,
        ⟨e.1, e.2.nodeName, e.2.zone, "", e.2.labels⟩ ∈ snap.agents) ∧
      ∀ a ∈ snap.agents, row.stated.agents.lookup a.id = some ⟨a.nodeName, a.zone, a.labels⟩)
    (nodes : (∀ node ∈ snap.nodes, ∃ ready,
        row.stated.nodes.lookup node.name = some ⟨node.zone, ready⟩) ∧
      ∀ name ∈ row.stated.nodes.keys, name ∈ snap.nodes.map TopologyNode.name ∨
        ∀ agent ∈ snap.agents, agent.nodeName ≠ name) : InForce row snap where
  agents id p := ⟨fun found => agents.1 ⟨id, p⟩ (AList.mem_lookup_iff.mp found),
    fun mem => agents.2 _ mem⟩
  listed := nodes.1
  others name mem := nodes.2 name (AList.mem_keys.mp mem)

/-- The replayed rows leave every node of the baseline as it states it, and bring back no node
whose host is a bare one. -/
def Spares (row : EventRecord) (overlap : List EventRecord) : Prop :=
  (∀ e ∈ row.stated.nodes.entries, Kept e.2 (row.stated.mentions e.1 overlap)) ∧
    ∀ name ∈ row.stated.bareHosts, LeftOut (row.stated.mentions name overlap)

instance (row : EventRecord) (overlap : List EventRecord) : Decidable (Spares row overlap) :=
  inferInstanceAs (Decidable (_ ∧ _))

section Overlap

variable {preceding overlap : List EventRecord} {row : EventRecord}

section
variable (inForce : InForce row (foldTopology (preceding ++ overlap)))
include inForce

/-- The baseline's agents are those of the history it closes. -/
theorem InForce.lookup_agents
    (id : String) : row.stated.agents.lookup id =
      (overlap.foldl step (preceding.foldl step {})).agents.lookup id := by
  refine Option.ext fun p => ?_
  rw [inForce.agents, foldTopology, List.foldl_append, mem_snapshot_agents]
  constructor
  · rintro ⟨q, found, same⟩
    cases p
    cases q
    cases same
    exact found
  · intro found
    exact ⟨p, found, rfl⟩

theorem InForce.replay_agents
    (changes : ∀ x ∈ overlap, x.IsChange) (id : String) :
    (overlap.foldl step row.stated).agents.lookup id = row.stated.agents.lookup id := by
  have final := inForce.lookup_agents id
  rw [final]
  refine lookup_agents_eq ?_ ?_ ?_
  · exact (host_lastWrite id).replay changes
      (Or.inr (congrArg (Option.map Placement.nodeName) final))
  · exact (agentZone_lastWrite id).replay changes
      (Or.inr (congrArg (fun p => (p.getD {}).zone) final))
  · exact (agentLabels_lastWrite id).replay changes
      (Or.inr (congrArg (fun p => (p.getD {}).labels) final))

theorem InForce.bareHosts
    (name : String) : name ∈ row.stated.bareHosts ↔
      name ∈ ((preceding ++ overlap).foldl step {}).bareHosts := by
  simp only [mem_bareHosts, inForce.lookup_agents, List.foldl_append]

/-- A bare host is no node of the baseline. -/
theorem InForce.not_mem_of_bare
    (bare : name ∈ row.stated.bareHosts) : row.stated.nodes.lookup name = none := by
  by_contra there
  rcases inForce.others name ((mem_nodes_iff _ _).mpr there) with listed | unhosted
  · exact ((mem_snapshot_nodes _ _ name).mp listed).2 ((inForce.bareHosts name).mp bare)
  · obtain ⟨id, p, found, node, -⟩ := (mem_bareHosts _ _).mp bare
    exact unhosted _ ((inForce.agents id p).mp found) node

theorem InForce.replay_absent
    (changes : ∀ x ∈ overlap, x.IsChange) {name : String}
    (absent : row.stated.nodes.lookup name = none) (hosted : name ∉ row.stated.bareHosts) :
    (overlap.foldl FoldState.step row.stated).nodes.lookup name = none := by
  by_cases named : name = ""
  · subst named
    exact lookup_nodes_nameless changes absent
  by_contra there
  have shadows : Shadows name overlap row.stated (preceding.foldl FoldState.step {}) :=
    ⟨fun id => Or.inr (congrArg (Option.map Placement.nodeName) (inForce.lookup_agents id)),
      fun h => absurd absent ((mem_nodes_iff _ _).mp h)⟩
  have final := shadows.run changes named ((mem_nodes_iff _ _).mpr there)
  rw [← List.foldl_append] at final
  obtain ⟨node, listed, rfl⟩ := List.mem_map.mp ((mem_snapshot_nodes _ _ name).mpr
    ⟨final, fun bare => hosted ((inForce.bareHosts name).mpr bare)⟩)
  obtain ⟨ready, found⟩ := inForce.listed node listed
  exact absurd (absent.symm.trans found) nofun

/-- The replay leaves the baseline's nodes alone exactly when it spares them. -/
theorem InForce.replay_nodes_iff
    (changes : ∀ x ∈ overlap, x.IsChange) :
    (∀ name, (overlap.foldl step row.stated).nodes.lookup name =
      row.stated.nodes.lookup name) ↔ Spares row overlap := by
  have run := lookup_nodes_run changes row.stated
  constructor
  · intro same
    constructor
    · intro e mem
      have found : row.stated.nodes.lookup e.1 = some e.2 := AList.mem_lookup_iff.mpr mem
      have kept := run e.1
      rw [same, found] at kept
      exact (foldl_after_eq_iff _ _).mp kept.symm
    · intro name bare
      have kept := run name
      rw [same, inForce.not_mem_of_bare bare] at kept
      exact (foldl_after_eq_none_iff _).mp kept.symm
  · rintro ⟨kept, leftOut⟩ name
    cases found : row.stated.nodes.lookup name with
    | some node =>
      rw [run, found]
      exact (foldl_after_eq_iff _ _).mpr (kept ⟨name, node⟩ (AList.mem_lookup_iff.mp found))
    | none =>
      by_cases bare : name ∈ row.stated.bareHosts
      · rw [run, found]
        exact (foldl_after_eq_none_iff _).mpr (leftOut name bare)
      · exact inForce.replay_absent changes found bare

end

end Overlap

theorem lookup_agents_baseline_nameless (time : Nat) (b : TopologyBaselineDetails) :
    (EventRecord.stated ⟨time, .baseline b⟩).agents.lookup "" = none := by
  refine foldl_invariant (I := fun m : GoMap String Placement => m.lookup "" = none) rfl ?_
  intro m a mem before
  have named : a.id ≠ "" := by simpa using (List.mem_filter.mp mem).2
  rw [GoMap.lookup_insert_if, if_neg named.symm, before]

theorem foldTopology_cons (row : EventRecord) (rows : List EventRecord) :
    foldTopology (row :: rows) = (rows.foldl step row.stated).snapshot (rows.length + 1) := rfl

/-- Replaying the end of the history after its baseline shows in no later reconstruction exactly
when the replayed rows spare the baseline's nodes. The agents never differ. -/
theorem replay_overlap_iff (preceding overlap : List EventRecord) (time : Nat)
    (b : TopologyBaselineDetails) (changes : ∀ row ∈ preceding ++ overlap, row.IsChange)
    (inForce : InForce ⟨time, .baseline b⟩ (foldTopology (preceding ++ overlap))) : (∀ later,
      (foldTopology (⟨time, .baseline b⟩ :: overlap ++ later)).nodes =
        (foldTopology (⟨time, .baseline b⟩ :: later)).nodes ∧
      (foldTopology (⟨time, .baseline b⟩ :: overlap ++ later)).agents =
        (foldTopology (⟨time, .baseline b⟩ :: later)).agents) ↔
    Spares ⟨time, .baseline b⟩ overlap := by
  have replayed : ∀ x ∈ overlap, x.IsChange := fun x mem =>
    changes x (List.mem_append_right _ mem)
  have agents := inForce.replay_agents replayed
  rw [← inForce.replay_nodes_iff replayed]
  set row : EventRecord := ⟨time, .baseline b⟩
  simp only [List.cons_append, foldTopology_cons, List.foldl_append]
  constructor
  · intro same name
    -- hushing every agent makes both reconstructions list all of their nodes
    have named : ∀ id ∈ row.stated.agents.keys, id ≠ "" := by
      rintro id mem rfl
      exact absurd (lookup_agents_baseline_nameless time b)
        (fun none => AList.lookup_eq_none.mp none (AList.mem_keys.mpr mem))
    have absent : ∀ id, id ∉ row.stated.agents.keys → row.stated.agents.lookup id = none :=
      fun id out => AList.lookup_eq_none.mpr fun mem => out (AList.mem_keys.mp mem)
    have lists := (same (row.stated.agents.keys.map hush)).1
    refine Option.ext fun node => ?_
    have left := mem_snapshot_nodes_iff
      ((row.stated.agents.keys.map hush).foldl step
        (overlap.foldl step row.stated))
      ((overlap ++ row.stated.agents.keys.map hush).length + 1) ⟨name, node.zone, node.ready⟩
    have right := mem_snapshot_nodes_iff
      ((row.stated.agents.keys.map hush).foldl step row.stated)
      ((row.stated.agents.keys.map hush).length + 1) ⟨name, node.zone, node.ready⟩
    rw [lists, lookup_nodes_hush named, and_iff_left (bareHosts_hush named
      (fun id out => (agents id).trans (absent id out)) name)] at left
    rw [lookup_nodes_hush named, and_iff_left (bareHosts_hush named absent name)] at right
    exact left.symm.trans right
  · intro nodes later
    exact (Alike.run ⟨nodes, agents⟩ later).snapshot _ _

def registered (time : Nat) (node agent zone : String) : EventRecord :=
  ⟨time, .changed { reason :=
    Reason.agentRegistered.text, nodeName := node, agentID := agent, zone }⟩

def deregistered (time : Nat) (node agent : String) : EventRecord :=
  ⟨time, .changed { reason := Reason.agentDeregistered.text, nodeName := node, agentID := agent }⟩

/-- One pod replaces another on `n1`; `n2` is not ready and runs no agent. -/
def replacedPod : List EventRecord := [registered 2 "n1" "new" "z", deregistered 3 "n1" "old"]

def replacedPodBaseline : EventRecord where
  eventTime := 4
  details := .baseline ⟨[⟨"n1", "z", true⟩, ⟨"n2", "z", false⟩], [⟨"new", "n1", "z", none⟩]⟩

theorem replay_overlap_iff_replacedPod : (∀ later,
      (foldTopology (replacedPodBaseline :: replacedPod ++ later)).nodes =
        (foldTopology (replacedPodBaseline :: later)).nodes ∧
      (foldTopology (replacedPodBaseline :: replacedPod ++ later)).agents =
        (foldTopology (replacedPodBaseline :: later)).agents) ∧
    (foldTopology [replacedPodBaseline]).nodes = [⟨"n1", "z", true⟩, ⟨"n2", "z", false⟩] := by
  have changes : ∀ row ∈ [registered 1 "n1" "old" "z"] ++ replacedPod, row.IsChange := by
    simp [replacedPod, registered, deregistered, EventRecord.IsChange]
  have inForce : InForce replacedPodBaseline
      (foldTopology ([registered 1 "n1" "old" "z"] ++ replacedPod)) :=
    .of_entries (by decide) (by decide)
  exact ⟨(replay_overlap_iff _ _ _ _ changes inForce).mpr (by decide), by decide⟩

/-- The agent of `n1` registers while the node is not ready, the last one of `n2` leaves. -/
def rolledNodes : List EventRecord := [registered 2 "n1" "a" "z", deregistered 3 "n2" "b"]

def rolledNodesBaseline : EventRecord where
  eventTime := 4
  details := .baseline ⟨[⟨"n1", "z", false⟩, ⟨"n2", "z", true⟩], [⟨"a", "n1", "z", none⟩]⟩

/-- The replay makes `n1` ready and loses `n2`, though the baseline is later than both rows. -/
theorem replay_overlap_rolledNodes :
    (∀ row ∈ [registered 1 "n2" "b" "z"] ++ rolledNodes, row.IsChange) ∧
    InForce rolledNodesBaseline (foldTopology ([registered 1 "n2" "b" "z"] ++ rolledNodes)) ∧
    (foldTopology [rolledNodesBaseline]).nodes = [⟨"n1", "z", false⟩, ⟨"n2", "z", true⟩] ∧
    (foldTopology (rolledNodesBaseline :: rolledNodes)).nodes = [⟨"n1", "z", true⟩] := by
  refine ⟨?_, .of_entries (by decide) (by decide), by decide,
    by decide⟩
  simp [rolledNodes, registered, deregistered, EventRecord.IsChange]

end Kconmon.Console
