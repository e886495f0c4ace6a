import Kconmon.Controller.NodePlan

/-!
# The planes an agent runs

An agent lists the planes it runs among its capabilities. The server leaves out of the matrix the
rows of sources that list planes without the one on show, and the page draws these rows as not run.
Both take an agent that lists no plane for one that is too old to do so. They do not agree on what
it is to list a plane: the page counts only the names that it knows.
-/
namespace Kconmon.Console.Planes
open Lib Model
open Controller.NodePlan (Json)

/-- The check types, each the name of a plane. -/
inductive Plane where
  | tcp | udp | icmp | pmtu | dns | http | mtr
  deriving DecidableEq

def Plane.name : Plane → String
  | .tcp => "tcp"
  | .udp => "udp"
  | .icmp => "icmp"
  | .pmtu => "pmtu"
  | .dns => "dns"
  | .http => "http"
  | .mtr => "mtr"

def checkTypes : List Plane := [.tcp, .udp, .icmp, .pmtu, .dns, .http, .mtr]

def capabilityPlanePrefix : String := "plane:"

def hasPrefix (s start : String) : Bool := start.toList.isPrefixOf s.toList

/-! ## The server -/

/-- The loop over the capabilities; `listed` says whether one of them was a plane. -/
def scanCaps (protocol : String) (listed : Bool) : List String → Bool
  | [] => !listed
  | c :: caps =>
    if c = capabilityPlanePrefix ++ protocol then true
    else scanCaps protocol (if hasPrefix c capabilityPlanePrefix then true else listed) caps

def runsPlane (caps : List String) (protocol : String) : Bool := scanCaps protocol false caps

/-! ## The page -/

namespace Page

/-- A name is a plane if it is among the check types. -/
def planeOf (name : String) : Option Plane := checkTypes.find? (·.name = name)

def addPlane (planes : GoMap Plane Unit) : Json → GoMap Plane Unit
  | .string cap =>
    if hasPrefix cap capabilityPlanePrefix then
      match planeOf (String.ofList (cap.toList.drop capabilityPlanePrefix.toList.length)) with
      | some plane => AList.insert plane () planes
      | none => planes
    else planes
  | _ => planes

/-- `none` is an agent whose planes are unknown; the argument `none` is no agent. -/
def agentPlanes (agent : Option Json) : Option (GoMap Plane Unit) :=
  match agent with
  | some (.object fields) =>
    match fields.lookup "capabilities" with
    | some (.array capabilities) =>
      let planes := capabilities.foldl addPlane ∅
      if planes.entries.length = 0 then none else some planes
    | _ => none
  | _ => none

def runsPlane (agent : Option Json) (plane : Plane) : Bool :=
  match agentPlanes agent with
  | none => true
  | some planes => (planes.lookup plane).isSome

end Page

/-- What the page reads of an agent; an empty list of capabilities is not sent. -/
def encodeAgent (a : AgentInfo) : Json := .object (("nodeName", .string a.nodeName) ::
    if a.capabilities = [] then []
    else [("capabilities", .array (a.capabilities.map .string))])

/-! ## What the two read -/

/-- A capability that names a plane the page knows. -/
def Lists (caps : List String) (plane : Plane) : Prop := capabilityPlanePrefix ++ plane.name ∈ caps

theorem scanCaps_eq_true (protocol : String) (listed : Bool) (caps : List String) :
    scanCaps protocol listed caps = true ↔ capabilityPlanePrefix ++ protocol ∈ caps ∨
      listed = false ∧ ∀ c ∈ caps, hasPrefix c capabilityPlanePrefix = false := by
  induction caps generalizing listed with
  | nil => simp [scanCaps]
  | cons c caps ih =>
    rw [scanCaps]
    grind

/-- The server: the plane is listed, or no plane is. -/
theorem runsPlane_eq_true (caps : List String) (plane : Plane) : runsPlane caps plane.name = true ↔
      Lists caps plane ∨ ∀ c ∈ caps, hasPrefix c capabilityPlanePrefix = false := by
  rw [runsPlane, scanCaps_eq_true, Lists]
  simp

theorem hasPrefix_append (start rest : String) : hasPrefix (start ++ rest) start = true := by
  rw [hasPrefix, String.toList_append, List.isPrefixOf_iff_prefix]
  exact List.prefix_append _ _

theorem exists_of_hasPrefix {s start : String} (starts : hasPrefix s start = true) :
    ∃ rest, s = start ++ rest := by
  obtain ⟨rest, whole⟩ := List.isPrefixOf_iff_prefix.mp starts
  refine ⟨String.ofList rest, String.toList_injective ?_⟩
  rw [String.toList_append, String.toList_ofList, whole]

namespace Page

theorem planeOf_eq_some {name : String} {plane : Plane} :
    planeOf name = some plane ↔ plane.name = name := by
  constructor
  · intro found
    simpa using List.find?_some found
  · rintro rfl
    cases plane <;> decide

theorem addPlane_lookup (planes : GoMap Plane Unit) (cap : String) (plane : Plane) :
    ((addPlane planes (.string cap)).lookup plane).isSome ↔
      (planes.lookup plane).isSome ∨ cap = capabilityPlanePrefix ++ plane.name := by
  by_cases starts : hasPrefix cap capabilityPlanePrefix = true
  · obtain ⟨rest, rfl⟩ := exists_of_hasPrefix starts
    have name : String.ofList ((capabilityPlanePrefix ++ rest).toList.drop
        capabilityPlanePrefix.toList.length) = rest := by
      rw [String.toList_append, List.drop_left, String.ofList_toList]
    have same : capabilityPlanePrefix ++ rest = capabilityPlanePrefix ++ plane.name ↔
        planeOf rest = some plane := by
      rw [planeOf_eq_some, String.append_right_inj, eq_comm]
    simp only [addPlane, starts, name, same, if_true]
    cases planeOf rest with
    | none => simp
    | some known => grind
  · have differs : cap ≠ capabilityPlanePrefix ++ plane.name := by
      rintro rfl
      exact starts (hasPrefix_append _ _)
    simp [addPlane, starts, differs]

theorem foldl_addPlane_lookup (caps : List String) (planes : GoMap Plane Unit) (plane : Plane) :
    (((caps.map Json.string).foldl addPlane planes).lookup plane).isSome ↔
      (planes.lookup plane).isSome ∨ Lists caps plane := by
  induction caps generalizing planes with
  | nil => simp [Lists]
  | cons cap caps ih =>
    rw [List.map_cons, List.foldl_cons, ih, addPlane_lookup]
    grind [Lists]

theorem length_entries_eq_zero {κ ν : Type} [DecidableEq κ] (m : GoMap κ ν) :
    m.entries.length = 0 ↔ ∀ k, (m.lookup k).isSome = false := by
  constructor
  · intro empty k
    rw [GoMap.lookup_of_entries_nil (List.length_eq_zero_iff.mp empty) k, Option.isSome_none]
  · intro absent
    by_contra held
    obtain ⟨e, mem⟩ := List.exists_mem_of_length_pos (Nat.pos_of_ne_zero held)
    have found := AList.mem_lookup_iff.mpr mem
    simpa [Option.mem_def.mp found] using absent e.1

/-- The page: the plane is listed, or no known plane is. -/
theorem runsPlane_eq_true (a : AgentInfo) (plane : Plane) :
    runsPlane (some (encodeAgent a)) plane = true ↔
      Lists a.capabilities plane ∨ ∀ known, ¬Lists a.capabilities known := by
  by_cases bare : a.capabilities = []
  · simp [runsPlane, agentPlanes, encodeAgent, bare, Lists, List.lookup_cons]
  have read := foldl_addPlane_lookup a.capabilities ∅
  simp only [AList.lookup_empty, Option.isSome_none, Bool.false_eq_true, false_or] at read
  simp only [runsPlane, agentPlanes, encodeAgent, if_neg bare, List.lookup_cons]
  simp only [show ("capabilities" == "nodeName") = false from rfl, beq_self_eq_true]
  by_cases unknown : ((a.capabilities.map Json.string).foldl addPlane ∅).entries.length = 0
  · have none_known := (length_entries_eq_zero _).mp unknown
    simp only [if_pos unknown, true_iff, ← read]
    exact .inr fun known => by simp [none_known known]
  · simp only [if_neg unknown, read]
    have some_known := mt (length_entries_eq_zero _).mpr unknown
    simp only [Bool.eq_false_iff, ne_eq, read] at some_known
    tauto

end Page

/-- Server and page give one answer for an agent exactly if it lists a plane that the page knows or
lists no plane; which plane they are asked for does not matter. -/
theorem runsPlane_agree_iff (a : AgentInfo) (plane : Plane) :
    runsPlane a.capabilities plane.name = Page.runsPlane (some (encodeAgent a)) plane ↔
      (∃ known, capabilityPlanePrefix ++ Plane.name known ∈ a.capabilities) ∨
        ∀ c ∈ a.capabilities, hasPrefix c capabilityPlanePrefix = false := by
  rw [Bool.eq_iff_iff, runsPlane_eq_true, Page.runsPlane_eq_true]
  have prefixed : ∀ known, Lists a.capabilities known →
      ¬∀ c ∈ a.capabilities, hasPrefix c capabilityPlanePrefix = false :=
    fun known listed none_listed => by simpa [hasPrefix_append] using none_listed _ listed
  change _ ↔ (∃ known, Lists a.capabilities known) ∨ _
  grind

/-- An agent that runs one plane, of which the page has not heard. -/
def newer : AgentInfo := { id := "q", nodeName := "n", zone := "z", capabilities := ["plane:quic"] }

theorem runsPlane_disagree_unknown : runsPlane newer.capabilities Plane.tcp.name = false ∧
    Page.runsPlane (some (encodeAgent newer)) .tcp = true := by
  decide

end Kconmon.Console.Planes
