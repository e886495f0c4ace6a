import Kconmon.Console.Fold
import Kconmon.Lib.LastWrite

/-!
# What a row does to one subject

A topology_changed row places its subject, removes it, or is not folded at all.
An agent's host, zone and labels are registers that a row overwrites or leaves
alone. A node is not one: whether a removal takes it depends on the agents that
are left, so the rows that reach a node are read off along the run.
-/
namespace Kconmon.Console
open Lib Model Controller

/-- What the fold does with a row that is no baseline. -/
inductive Act where
  | inert
  | place (d : TopologyChangeDetails)
  | remove (d : TopologyChangeDetails)
  deriving DecidableEq

def TopologyChangeDetails.act (d : TopologyChangeDetails) : Act :=
  if d.nodeName = "" ∧ d.agentID = "" then .inert
  else if d.reason = Reason.agentRegistered.text ∨ d.reason = Reason.zoneUpdated.text then .place d
  else if d.reason = Reason.agentDeregistered.text ∨ d.reason = Reason.agentEvicted.text then
    .remove d
  else .inert

namespace EventRecord

/-- A topology_changed row, whether or not its details decode. -/
def IsChange (row : EventRecord) : Prop := ∀ b, row.details ≠ .baseline b

def act (row : EventRecord) : Act :=
  match row.details with
  | .changed d => d.act
  | _ => .inert

end EventRecord

namespace FoldState

/-- The maps that an act leaves. -/
def perform (s : FoldState) : Act → FoldState
  | .inert => s
  | .place d => placeAgent d (placeNode d s)
  | .remove d => remove d s

/-- The time of the last change is carried along, never read. -/
theorem perform_lastChange (s : FoldState) (time : Nat) (act : Act) :
    { s with lastChange := time }.perform act = { s.perform act with lastChange := time } := by
  have node (d) : placeNode d { s with lastChange := time } =
      { placeNode d s with lastChange := time } := by
    unfold placeNode
    split_ifs <;> rfl
  have agent (d) (s : FoldState) : placeAgent d { s with lastChange := time } =
      { placeAgent d s with lastChange := time } := by
    unfold placeAgent
    split_ifs <;> rfl
  have removal (d) : remove d { s with lastChange := time } =
      { remove d s with lastChange := time } := by
    unfold remove
    dsimp only
    split_ifs <;> rfl
  cases act with
  | inert => rfl
  | place d => rw [perform, perform, node, agent]
  | remove d => rw [perform, perform, removal]

theorem step_perform {row : EventRecord} (change : row.IsChange) (s : FoldState) :
    (s.step row).nodes = (s.perform row.act).nodes ∧
      (s.step row).agents = (s.perform row.act).agents := by
  obtain ⟨time, details⟩ := row
  have later := perform_lastChange s (max s.lastChange time)
  cases details with
  | baseline b => exact absurd rfl (change b)
  | malformed => exact ⟨rfl, rfl⟩
  | changed d =>
    have done : ∀ t : FoldState, (t.change d).nodes = (t.perform d.act).nodes ∧
        (t.change d).agents = (t.perform d.act).agents := by
      intro t
      unfold FoldState.change TopologyChangeDetails.act
      split_ifs <;> exact ⟨rfl, rfl⟩
    have changed := done { s with lastChange := max s.lastChange time }
    rw [later] at changed
    exact changed

/-! ## Agents -/

/-- The placement that a row gives its agent, `prev` being the one it had. -/
def amended (d : TopologyChangeDetails) (prev : Option Placement) : Placement :=
  ⟨d.nodeName, if d.zone = "" then (prev.getD {}).zone else d.zone,
    if d.labels = none then (prev.getD {}).labels else d.labels⟩

theorem lookup_agents_place (s : FoldState) (d : TopologyChangeDetails) (id : String) :
    (s.perform (.place d)).agents.lookup id =
      if id = d.agentID ∧ id ≠ "" then some (amended d (s.agents.lookup id))
      else s.agents.lookup id := by
  have frame : (placeNode d s).agents = s.agents := by
    unfold placeNode
    split_ifs <;> rfl
  rw [perform, placeAgent]
  by_cases nameless : d.agentID = ""
  · have other : ¬ (id = d.agentID ∧ id ≠ "") := fun h => h.2 (h.1.trans nameless)
    rw [if_pos nameless, if_neg other, frame]
  · rw [if_neg nameless]
    dsimp only
    rw [frame, GoMap.lookup_insert_if]
    by_cases same : id = d.agentID
    · have own : id = d.agentID ∧ id ≠ "" := ⟨same, same ▸ nameless⟩
      rw [if_pos same, if_pos own, same]
      rfl
    · rw [if_neg same, if_neg fun h => same h.1]

theorem lookup_agents_remove (s : FoldState) (d : TopologyChangeDetails) (id : String) :
    (s.perform (.remove d)).agents.lookup id =
      if id = d.agentID then none else s.agents.lookup id := by
  rw [perform, agents_remove, GoMap.lookup_erase_if]

/-- What a row writes for an agent: `placed` reads it off the details that place the agent. -/
def writes {υ : Type} (id : String) (placed : TopologyChangeDetails → Option υ) (removed : υ)
    (row : EventRecord) : Option υ :=
  match row.act with
  | .inert => none
  | .place d => if id = d.agentID ∧ id ≠ "" then placed d else none
  | .remove d => if id = d.agentID then some removed else none

/-- A field of an agent's placement is a register when a placement overwrites or keeps it. -/
theorem agent_lastWrite {υ : Type} (read : Option Placement → υ)
    {placed : TopologyChangeDetails → Option υ}
    (own : ∀ d prev, read (some (amended d prev)) = (placed d).getD (read prev)) (id : String) :
    LastWrite step EventRecord.IsChange (fun s => read (s.agents.lookup id))
      (writes id placed (read none)) := by
  intro s row change
  dsimp only
  rw [(step_perform change s).2, writes]
  cases row.act with
  | inert => rfl
  | place d =>
    rw [lookup_agents_place]
    dsimp only
    split_ifs
    · exact own d _
    · rfl
  | remove d =>
    rw [lookup_agents_remove]
    dsimp only
    split_ifs <;> rfl

/-- The node an agent sits on. -/
def host (id : String) (s : FoldState) : Option String :=
    (s.agents.lookup id).map Placement.nodeName

def agentZone (id : String) (s : FoldState) : String := ((s.agents.lookup id).getD {}).zone

def agentLabels (id : String) (s : FoldState) : Option Labels :=
  ((s.agents.lookup id).getD {}).labels

theorem host_lastWrite (id : String) : LastWrite step EventRecord.IsChange (host id)
      (writes id (fun d => some (some d.nodeName)) none) :=
  agent_lastWrite (Option.map Placement.nodeName) (fun _ _ => rfl) id

theorem agentZone_lastWrite (id : String) : LastWrite step EventRecord.IsChange (agentZone id)
      (writes id (fun d => if d.zone = "" then none else some d.zone) "") := by
  refine agent_lastWrite (fun p => (p.getD {}).zone) (fun d prev => ?_) id
  unfold amended
  dsimp only [Option.getD_some]
  split_ifs <;> rfl

theorem agentLabels_lastWrite (id : String) : LastWrite step EventRecord.IsChange (agentLabels id)
      (writes id (fun d => d.labels.map some) none) := by
  refine agent_lastWrite (fun p => (p.getD {}).labels) (fun d prev => ?_) id
  unfold amended
  cases d.labels <;> rfl

/-- The three registers are all that is known of an agent. -/
theorem lookup_agents_eq {s t : FoldState} {id : String} (hosts : host id s = host id t)
    (zones : agentZone id s = agentZone id t) (labels : agentLabels id s = agentLabels id t) :
    s.agents.lookup id = t.agents.lookup id := by
  unfold host at hosts
  unfold agentZone at zones
  unfold agentLabels at labels
  cases hs : s.agents.lookup id with
  | none =>
    rw [hs, Option.map_none, eq_comm, Option.map_eq_none_iff] at hosts
    exact hosts.symm
  | some p =>
    rw [hs, Option.map_some, eq_comm, Option.map_eq_some_iff] at hosts
    obtain ⟨q, ht, node⟩ := hosts
    rw [hs, ht] at zones labels
    rw [ht]
    exact congrArg some (Placement.mk.injEq .. ▸ ⟨node.symm, zones, labels⟩)

/-! ## Nodes -/

/-- Some other agent keeps the node of a removal in place. -/
def StillPopulated (s : FoldState) (d : TopologyChangeDetails) : Prop :=
  d.agentID ≠ "" ∧ ∃ e ∈ (s.agents.erase d.agentID).entries, e.2.nodeName = d.nodeName

instance (s : FoldState) (d : TopologyChangeDetails) : Decidable (s.StillPopulated d) :=
  inferInstanceAs (Decidable (_ ∧ _))

theorem stillPopulated_iff (s : FoldState) (d : TopologyChangeDetails) :
    s.StillPopulated d ↔ d.agentID ≠ "" ∧ ∃ id ≠ d.agentID, host id s = some d.nodeName := by
  refine and_congr_right fun _ => ?_
  constructor
  · rintro ⟨e, mem, node⟩
    have found := AList.mem_lookup_iff.mpr mem
    rw [Option.mem_def, GoMap.lookup_erase_if] at found
    split_ifs at found with same
    exact ⟨e.1, same, by rw [host, found, Option.map_some, node]⟩
  · rintro ⟨id, other, node⟩
    obtain ⟨p, found, node⟩ := Option.map_eq_some_iff.mp node
    refine ⟨⟨id, p⟩, AList.mem_lookup_iff.mp ?_, node⟩
    rw [Option.mem_def, GoMap.lookup_erase_if, if_neg other, found]

end FoldState

/-- How a row reaches one node: it places it, or takes it away. -/
inductive Mention where
  | placed (zone : String)
  | taken
  deriving DecidableEq

/-- The zone rule of the fold, and the ready flag that a placement sets. -/
def Mention.after (prev : Option NodeState) : Mention → Option NodeState
  | .placed zone => some ⟨if zone ≠ "" ∨ prev = none then zone else (prev.getD {}).zone, true⟩
  | .taken => none

namespace FoldState

def mention (name : String) (s : FoldState) (row : EventRecord) : Option Mention :=
  match row.act with
  | .inert => none
  | .place d => if d.nodeName = name ∧ name ≠ "" then some (.placed d.zone) else none
  | .remove d => if d.nodeName = name ∧ ¬ s.StillPopulated d then some .taken else none

/-- How the rows reach a node when they are folded from `s` on. -/
def mentions (name : String) : FoldState → List EventRecord → List Mention
  | _, [] => []
  | s, row :: rows => (s.mention name row).toList ++ mentions name (s.step row) rows

theorem lookup_nodes_place (s : FoldState) (d : TopologyChangeDetails) (name : String) :
    (s.perform (.place d)).nodes.lookup name =
      if d.nodeName = name ∧ name ≠ "" then (Mention.placed d.zone).after (s.nodes.lookup name)
      else s.nodes.lookup name := by
  have frame : ∀ t : FoldState, (placeAgent d t).nodes = t.nodes := by
    intro t
    unfold placeAgent
    split_ifs <;> rfl
  rw [perform, frame, placeNode]
  by_cases nameless : d.nodeName = ""
  · have other : ¬ (d.nodeName = name ∧ name ≠ "") := fun h => h.2 (h.1 ▸ nameless)
    rw [if_pos nameless, if_neg other]
  · rw [if_neg nameless]
    dsimp only
    rw [GoMap.lookup_insert_if]
    by_cases same : name = d.nodeName
    · have own : d.nodeName = name ∧ name ≠ "" := ⟨same.symm, same ▸ nameless⟩
      rw [if_pos same, if_pos own, same]
      rfl
    · rw [if_neg same, if_neg fun h => same h.1.symm]

theorem lookup_nodes_remove (s : FoldState) (d : TopologyChangeDetails) (name : String) :
    (s.perform (.remove d)).nodes.lookup name =
      if d.nodeName = name ∧ ¬ s.StillPopulated d then none else s.nodes.lookup name := by
  change (if s.StillPopulated d then _ else _ : FoldState).nodes.lookup name = _
  by_cases populated : s.StillPopulated d
  · rw [if_pos populated, if_neg fun h => h.2 populated]
  · rw [if_neg populated]
    dsimp only
    rw [GoMap.lookup_erase_if]
    grind

theorem lookup_nodes_step {row : EventRecord} (change : row.IsChange) (s : FoldState)
    (name : String) : (s.step row).nodes.lookup name =
      (s.mention name row).toList.foldl Mention.after (s.nodes.lookup name) := by
  rw [(step_perform change s).1, mention]
  cases row.act with
  | inert => rfl
  | place d =>
    rw [lookup_nodes_place]
    dsimp only
    split_ifs <;> rfl
  | remove d =>
    rw [lookup_nodes_remove]
    dsimp only
    split_ifs <;> rfl

/-- A run leaves a node as its mentions leave it. -/
theorem lookup_nodes_run {rows : List EventRecord} (changes : ∀ row ∈ rows, row.IsChange)
    (s : FoldState) (name : String) : (rows.foldl step s).nodes.lookup name =
      (s.mentions name rows).foldl Mention.after (s.nodes.lookup name) := by
  induction rows generalizing s with
  | nil => rfl
  | cons row rows ih =>
    obtain ⟨change, rest⟩ := List.forall_mem_cons.mp changes
    rw [List.foldl_cons, ih rest, mentions, List.foldl_append, lookup_nodes_step change]

end FoldState

/-! ## What the mentions leave -/

/-- The zone last stated for a node since it was last taken away, `zone` before that. -/
def standingZone (zone : String) (ms : List Mention) : String :=
  ms.foldl (fun zone m => match m with
    | .placed stated => if stated = "" then zone else stated
    | .taken => "") zone

theorem zone_foldl_after (prev : Option NodeState) (ms : List Mention) :
    ((ms.foldl Mention.after prev).getD {}).zone = standingZone (prev.getD {}).zone ms := by
  induction ms generalizing prev with
  | nil => rfl
  | cons m ms ih =>
    rw [List.foldl_cons, ih, standingZone, standingZone, List.foldl_cons]
    cases m with
    | taken => rfl
    | placed zone => cases prev <;> grind [Mention.after]

theorem foldl_after_placed (prev : Option NodeState) (ms : List Mention) (zone : String) :
    (ms ++ [Mention.placed zone]).foldl Mention.after prev =
      some ⟨standingZone (prev.getD {}).zone (ms ++ [Mention.placed zone]), true⟩ := by
  rw [← zone_foldl_after, List.foldl_append]
  rfl

/-- The mentions leave a node as it was: there are none, or the last one places it, it was ready
and its zone stands. -/
def Kept (node : NodeState) (ms : List Mention) : Prop :=
  ms = [] ∨ ((∃ m ∈ ms.getLast?, m ≠ .taken) ∧ node.ready = true ∧
    standingZone node.zone ms = node.zone)

instance (node : NodeState) (ms : List Mention) : Decidable (Kept node ms) :=
  inferInstanceAs (Decidable (_ ∨ _))

/-- The mentions leave a node out that was not there: the last one, if any, takes it away. -/
def LeftOut (ms : List Mention) : Prop := ∀ m ∈ ms.getLast?, m = .taken

instance (ms : List Mention) : Decidable (LeftOut ms) :=
  inferInstanceAs (Decidable (∀ m ∈ ms.getLast?, m = .taken))

theorem foldl_after_eq_iff (node : NodeState) (ms : List Mention) :
    ms.foldl Mention.after (some node) = some node ↔ Kept node ms := by
  unfold Kept
  rcases List.eq_nil_or_concat' ms with rfl | ⟨ms, m, rfl⟩
  · simp
  · cases m with
    | taken => simp [Mention.after]
    | placed zone =>
      rw [foldl_after_placed]
      cases node
      simp only [Option.getD_some, Option.some.injEq, NodeState.mk.injEq, Bool.true_eq,
        List.append_eq_nil_iff, List.cons_ne_self, and_false, List.getLast?_append,
        List.getLast?_singleton, Option.some_or, Option.mem_def, ne_eq, exists_eq_left',
        reduceCtorEq, not_false_eq_true, true_and, false_or]
      exact and_comm

theorem foldl_after_eq_none_iff (ms : List Mention) :
    ms.foldl Mention.after none = none ↔ LeftOut ms := by
  unfold LeftOut
  rcases List.eq_nil_or_concat' ms with rfl | ⟨ms, m, rfl⟩
  · simp
  · cases m with
    | taken => simp [Mention.after]
    | placed zone => simp [Mention.after]

end Kconmon.Console
