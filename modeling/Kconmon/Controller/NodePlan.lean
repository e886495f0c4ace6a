import Kconmon.Lib.Lists
import Kconmon.Meshplan.Basic

/-!
# The pairs that the plan leaves out

The controller publishes its plan by node: under each node that has an agent, the nodes that its
agents are planned to probe. The matrix reads the field back, drops what it cannot read, and shows
a pair as not probed only if the plan says so.
-/
namespace Kconmon.Controller.NodePlan
open Lib Model
open Meshplan (Plan)

/-! ## The controller -/

def idToNode (agents : List AgentInfo) : GoMap String String :=
  agents.foldl (fun m a => AList.insert a.id a.nodeName m) ∅

/-- One peer of an agent on `node`. -/
def addPeer (nodes : GoMap String String) (node : String) (set : GoMap String Unit)
    (peerID : String) : GoMap String Unit :=
  match nodes.lookup peerID with
  | none => set
  | some peerNode => if peerNode = node then set else AList.insert peerNode () set

/-- The agent's node gets its set, and the set the agent's peers; an agent that the plan does not
mention has none. -/
def addAgent (plan : Plan) (nodes : GoMap String String) (dests : GoMap String (GoMap String Unit))
    (a : AgentInfo) : GoMap String (GoMap String Unit) :=
  let set := (dests.lookup a.nodeName).getD ∅
  AList.insert a.nodeName
    (((plan.lookup a.id).getD []).foldl (addPeer nodes a.nodeName) set) dests

def sortedPeers (ord : RangeOrder) (set : GoMap String Unit) : List String :=
  (ord.visit 1 set.keys).insertionSort (· ≤ ·)

def nodeProbePlan (ord : RangeOrder) (plan : Plan) (agents : List AgentInfo) :
    GoMap String (List String) :=
  let dests := agents.foldl (addAgent plan (idToNode agents)) ∅
  (ord.visit 0 dests.entries).foldl (fun out e => AList.insert e.1 (sortedPeers ord e.2) out) ∅

/-! ## The wire -/

/-- A parsed JSON value; the keys of an object are distinct. -/
inductive Json where
  | null
  | bool (b : Bool)
  | number (text : String)
  | string (s : String)
  | array (items : List Json)
  | object (fields : List (String × Json))

/-- The encoder writes a map in the order of its keys. -/
def encode (m : GoMap String (List String)) : Json :=
  .object ((m.entries.insertionSort (·.1 ≤ ·.1)).map fun e => (e.1, .array (e.2.map .string)))

/-- The field of the snapshot: absent without a plan in force, and absent if it would be empty. -/
def probePlan (ord : RangeOrder) (plan : Option Plan) (agents : List AgentInfo) : Option Json :=
  match plan with
  | none => none
  | some plan =>
    let m := nodeProbePlan ord plan agents
    if m.entries.length = 0 then none else some (encode m)

/-! ## The browser -/

abbrev ProbePlan := GoMap String (GoMap String Unit)

def addDest (set : GoMap String Unit) : Json → GoMap String Unit
  | .string d => if d ≠ "" then AList.insert d () set else set
  | _ => set

def readEntry (plan : ProbePlan) : String × Json → ProbePlan
  | (source, .array dests) => AList.insert source (dests.foldl addDest ∅) plan
  | _ => plan

/-- `none` is the value `undefined`. -/
def readProbePlan : Option Json → Option ProbePlan
  | some (.object fields) => some (fields.foldl readEntry ∅)
  | _ => none

def isPlanExcluded (plan : Option ProbePlan) (src dst : String) : Bool :=
  match plan with
  | none => false
  | some plan =>
    if src = dst then false
    else
      match plan.lookup src with
      | none => false
      | some dests => (dests.lookup dst).isNone

/-! ## What the controller publishes -/

/-- An agent on `s` has in its plan an agent on `d`. -/
def Planned (plan : Plan) (agents : List AgentInfo) (s d : String) : Prop :=
  ∃ a ∈ agents, a.nodeName = s ∧ ∃ peer ∈ agents, peer.nodeName = d ∧
    peer.id ∈ (plan.lookup a.id).getD []

theorem lookup_idToNode {agents : List AgentInfo} (distinct : (agents.map (·.id)).Nodup)
    (id node : String) : (idToNode agents).lookup id = some node ↔
      ∃ a ∈ agents, a.id = id ∧ a.nodeName = node := by
  rw [idToNode, GoMap.lookup_foldl_keyed, AList.lookup_empty, Option.or_none,
    Option.map_eq_some_iff]
  constructor
  · rintro ⟨a, last, rfl⟩
    have mem := List.mem_filter.mp (List.mem_of_getLast? last)
    exact ⟨a, mem.1, by simpa using mem.2, rfl⟩
  · rintro ⟨a, mem, rfl, rfl⟩
    exact ⟨a, by rw [filter_key_eq_singleton distinct mem, List.getLast?_singleton], rfl⟩

theorem addPeer_lookup (nodes : GoMap String String) (node : String) (set : GoMap String Unit)
    (peerID d : String) : ((addPeer nodes node set peerID).lookup d).isSome ↔
      (set.lookup d).isSome ∨ nodes.lookup peerID = some d ∧ d ≠ node := by
  cases known : nodes.lookup peerID with
  | none => simp [addPeer, known]
  | some peerNode =>
    by_cases own : peerNode = node
    · grind [addPeer]
    · simp only [addPeer, known, if_neg own, GoMap.lookup_insert_if]
      grind

/-- The peers of one agent. -/
theorem foldl_addPeer_lookup (nodes : GoMap String String) (node : String) (ids : List String)
    (set : GoMap String Unit) (d : String) :
    ((ids.foldl (addPeer nodes node) set).lookup d).isSome ↔
      (set.lookup d).isSome ∨ ∃ id ∈ ids, nodes.lookup id = some d ∧ d ≠ node := by
  induction ids generalizing set with
  | nil => simp
  | cons id ids ih =>
    rw [List.foldl_cons, ih, addPeer_lookup]
    grind

section Destinations
variable (plan : Plan) (nodes : GoMap String String)

/-- What one agent of a node does to the set of that node. -/
def extend (set : Option (GoMap String Unit)) (a : AgentInfo) : Option (GoMap String Unit) :=
  some (((plan.lookup a.id).getD []).foldl (addPeer nodes a.nodeName) (set.getD ∅))

theorem lookup_foldl_addAgent (agents : List AgentInfo) (s : String) :
    (agents.foldl (addAgent plan nodes) ∅).lookup s =
      (agents.filter (·.nodeName = s)).foldl (extend plan nodes) none := by
  have own : ∀ dests a, (addAgent plan nodes dests a).lookup a.nodeName =
      extend plan nodes (dests.lookup a.nodeName) a := by
    intro dests a
    simp [addAgent, extend]
  have other : ∀ dests a s, s ≠ AgentInfo.nodeName a →
      (addAgent plan nodes dests a).lookup s = dests.lookup s := by
    intro dests a s apart
    simp [addAgent, AList.lookup_insert_ne apart]
  exact foldl_by_key (fun dests s => AList.lookup s dests) own other agents ∅ s

theorem foldl_extend_isSome (l : List AgentInfo) (set : Option (GoMap String Unit)) :
    (l.foldl (extend plan nodes) set).isSome ↔ set.isSome ∨ l ≠ [] := by
  induction l generalizing set with
  | nil => simp
  | cons a l ih => simp [ih, extend]

theorem foldl_extend_lookup (l : List AgentInfo) (set : Option (GoMap String Unit)) (d : String) :
    (((l.foldl (extend plan nodes) set).getD ∅).lookup d).isSome ↔ ((set.getD ∅).lookup d).isSome ∨
        ∃ a ∈ l, ∃ id ∈ (plan.lookup a.id).getD [], nodes.lookup id = some d ∧ d ≠ a.nodeName := by
  induction l generalizing set with
  | nil => simp
  | cons a l ih =>
    rw [List.foldl_cons, ih, extend, Option.getD_some, foldl_addPeer_lookup]
    grind

end Destinations

theorem lookup_nodeProbePlan (ord : RangeOrder) (plan : Plan) (agents : List AgentInfo)
    (s : String) : (nodeProbePlan ord plan agents).lookup s =
      ((agents.filter (·.nodeName = s)).foldl (extend plan (idToNode agents)) none).map
        (sortedPeers ord) := by
  rw [← lookup_foldl_addAgent]
  exact GoMap.lookup_foldl_perm (sortedPeers ord) _ (ord.perm 0 _) s

theorem mem_sortedPeers {ord : RangeOrder} {set : GoMap String Unit} {d : String} :
    d ∈ sortedPeers ord set ↔ (set.lookup d).isSome := by
  rw [sortedPeers, List.mem_insertionSort, RangeOrder.mem_visit, AList.lookup_isSome]
  rfl

/-- The published plan has a line for every node with an agent. -/
theorem nodeProbePlan_isSome (ord : RangeOrder) (plan : Plan) (agents : List AgentInfo)
    (s : String) : ((nodeProbePlan ord plan agents).lookup s).isSome ↔
      ∃ a ∈ agents, a.nodeName = s := by
  rw [lookup_nodeProbePlan, Option.isSome_map, foldl_extend_isSome]
  simp

/-- On the line of a node stand the nodes that some agent of it is planned to probe. -/
theorem mem_nodeProbePlan {ord : RangeOrder} {plan : Plan} {agents : List AgentInfo}
    (distinct : (agents.map (·.id)).Nodup) {s : String} {peers : List String}
    (line : (nodeProbePlan ord plan agents).lookup s = some peers) (d : String) :
    d ∈ peers ↔ Planned plan agents s d ∧ d ≠ s := by
  rw [lookup_nodeProbePlan, Option.map_eq_some_iff] at line
  obtain ⟨set, filled, rfl⟩ := line
  have reached := foldl_extend_lookup plan (idToNode agents) (agents.filter (·.nodeName = s)) none d
  rw [filled, Option.getD_some] at reached
  rw [mem_sortedPeers, reached]
  simp only [lookup_idToNode distinct, Planned, List.mem_filter, decide_eq_true_eq,
    Option.getD_none, AList.lookup_empty, Option.isSome_none, Bool.false_eq_true, false_or]
  grind

/-! ## What the matrix reads -/

theorem foldl_addDest_lookup (names : List String) (set : GoMap String Unit) (d : String) :
    (((names.map Json.string).foldl addDest set).lookup d).isSome ↔
      (set.lookup d).isSome ∨ d ∈ names ∧ d ≠ "" := by
  induction names generalizing set with
  | nil => simp
  | cons name names ih =>
    rw [List.map_cons, List.foldl_cons, ih]
    by_cases empty : name = ""
    · grind [addDest]
    · simp only [addDest, ne_eq, empty, not_false_eq_true, if_true, GoMap.lookup_insert_if]
      grind

/-- The set that the browser reads from one line. -/
def readLine (names : List String) : GoMap String Unit := (names.map Json.string).foldl addDest ∅

theorem readProbePlan_encode (m : GoMap String (List String)) :
    ∃ plan, readProbePlan (some (encode m)) = some plan ∧
      ∀ s, plan.lookup s = (m.lookup s).map readLine := by
  refine ⟨_, rfl, fun s => ?_⟩
  rw [List.foldl_map]
  exact GoMap.lookup_foldl_perm readLine m (List.perm_insertionSort _ _) s

theorem isPlanExcluded_encode (m : GoMap String (List String)) {s d : String} (apart : s ≠ d) :
    isPlanExcluded (readProbePlan (some (encode m))) s d = true ↔
      ∃ peers, m.lookup s = some peers ∧ ¬(d ∈ peers ∧ d ≠ "") := by
  obtain ⟨plan, read, lines⟩ := readProbePlan_encode m
  rw [read, isPlanExcluded, if_neg apart, lines]
  cases m.lookup s with
  | none => simp
  | some peers =>
    have listed := foldl_addDest_lookup peers ∅ d
    simp only [AList.lookup_empty, Option.isSome_none, false_or, Bool.false_eq_true] at listed
    simp only [Option.map_some, readLine, Option.some.injEq, exists_eq_left', ← listed]
    simp

/-- The matrix shows a pair as not probed exactly if there is an agent on its source and none of the
agents there is planned to probe an agent on its destination. -/
theorem isPlanExcluded_iff_unplanned (ord : RangeOrder) (plan : Plan) {agents : List AgentInfo}
    (distinct : (agents.map (·.id)).Nodup) (named : ∀ a ∈ agents, a.nodeName ≠ "")
    {s d : String} (apart : s ≠ d) :
    isPlanExcluded (readProbePlan (some (encode (nodeProbePlan ord plan agents)))) s d = true ↔
      (∃ a ∈ agents, a.nodeName = s) ∧
        ¬∃ a ∈ agents, a.nodeName = s ∧ ∃ peer ∈ agents, peer.nodeName = d ∧
          peer.id ∈ (plan.lookup a.id).getD [] := by
  rw [isPlanExcluded_encode _ apart, ← nodeProbePlan_isSome ord plan, Option.isSome_iff_exists]
  have nonempty : Planned plan agents s d → d ≠ "" := by
    rintro ⟨-, -, -, peer, mem, rfl, -⟩
    exact named peer mem
  constructor
  · rintro ⟨peers, line, unlisted⟩
    refine ⟨⟨peers, line⟩, fun planned => unlisted ⟨?_, nonempty planned⟩⟩
    exact (mem_nodeProbePlan distinct line d).mpr ⟨planned, apart.symm⟩
  · rintro ⟨⟨peers, line⟩, unplanned⟩
    exact ⟨peers, line, fun listed => unplanned ((mem_nodeProbePlan distinct line d).mp listed.1).1⟩

/-- Two agents on one node while it restarts, of which the plan knows the one that left. -/
def restarting : List AgentInfo :=
  [("a1", "n1"), ("a2", "n1"), ("b", "n2"), ("c", "n3")].map fun (id, nodeName) =>
    { id, nodeName, zone := "z1" }

def halfPlan : Plan := (∅ : Plan).insert "a1" ["b", "gone"] |>.insert "gone" ["c"]

theorem isPlanExcluded_iff_unplanned_restarting :
    (restarting.map (·.id)).Nodup ∧ (∀ a ∈ restarting, a.nodeName ≠ "") ∧ "n1" ≠ "n3" ∧
    (isPlanExcluded (readProbePlan (some (encode (nodeProbePlan .stored halfPlan restarting))))
        "n1" "n3" = true ↔ (∃ a ∈ restarting, a.nodeName = "n1") ∧
        ¬∃ a ∈ restarting, a.nodeName = "n1" ∧ ∃ peer ∈ restarting, peer.nodeName = "n3" ∧
          peer.id ∈ (halfPlan.lookup a.id).getD []) :=
  ⟨by decide, by decide, by decide,
    isPlanExcluded_iff_unplanned .stored halfPlan (by decide) (by decide) (by decide)⟩

/-! ## The field of the snapshot -/

theorem isPlanExcluded_absent (s d : String) : isPlanExcluded (readProbePlan none) s d = false :=
    rfl

/-- Leaving out an empty field does not change what the matrix shows. -/
theorem isPlanExcluded_probePlan (ord : RangeOrder) (plan : Plan) (agents : List AgentInfo)
    {s d : String} (apart : s ≠ d) :
    isPlanExcluded (readProbePlan (probePlan ord (some plan) agents)) s d =
      isPlanExcluded (readProbePlan (some (encode (nodeProbePlan ord plan agents)))) s d := by
  by_cases empty : (nodeProbePlan ord plan agents).entries.length = 0
  · have nobody := GoMap.lookup_of_entries_nil (List.length_eq_zero_iff.mp empty) s
    have shown := isPlanExcluded_encode (nodeProbePlan ord plan agents) apart
    rw [probePlan, if_pos empty, isPlanExcluded_absent, eq_comm, ← Bool.not_eq_true, shown, nobody]
    simp
  · rw [probePlan, if_neg empty]

end Kconmon.Controller.NodePlan
