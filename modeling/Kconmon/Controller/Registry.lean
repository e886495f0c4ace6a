import Kconmon.Lib.GoMap
import Kconmon.Model.Agent
import Mathlib.Data.List.Sort

/-!
# The agent registry

The controller's set of live agents. A mutation returns the new registry and,
when it has something to announce, the publication its subscribers receive: the
agents after the mutation and the change. The two happen under one lock, so one
mutation is one step. A loop over the agents runs in stored order; what it
collects is sorted before anybody sees it.
-/
namespace Kconmon.Controller
open Lib Model

/-- The closed set of topology-change reasons. -/
inductive Reason where
  | agentRegistered
  | zoneUpdated
  | agentDeregistered
  | agentEvicted
  deriving DecidableEq

def Reason.text : Reason → String
  | agentRegistered => "agent_registered"
  | zoneUpdated => "zone_updated"
  | agentDeregistered => "agent_deregistered"
  | agentEvicted => "agent_evicted"

/-- One agent that a change was about, with what it had at that moment. -/
structure TopologySubject where
  agentID : String
  nodeName : String
  zone : String
  labels : Labels
  deriving DecidableEq

structure TopologyChange where
  reason : Reason
  subjects : List TopologySubject
  deriving DecidableEq

/-- The wire message of one change about one subject. -/
structure TopologyChanged where
  reason : Reason
  nodeName : String := ""
  agentId : String := ""
  zone : String := ""
  labels : Labels := []
  deriving DecidableEq

def TopologySubject.event (reason : Reason) (s : TopologySubject) : TopologyChanged :=
  ⟨reason, s.nodeName, s.agentID, s.zone, s.labels⟩

def TopologyChange.events (c : TopologyChange) : List TopologyChanged :=
  if c.subjects = [] then [{ reason := c.reason }]
  else c.subjects.map (TopologySubject.event c.reason)

/-- What a mutation hands to its subscribers. -/
structure Publication where
  agents : List AgentInfo
  change : TopologyChange
  deriving DecidableEq

structure RegisteredAgent where
  info : AgentInfo
  lastSeen : Int
  /-- Set when the agent registered with a zone of its own. -/
  zoneExplicit : Bool
  deriving DecidableEq

def RegisteredAgent.subject (id : String) (a : RegisteredAgent) : TopologySubject :=
  ⟨id, a.info.nodeName, a.info.zone, a.info.labels⟩

structure Registry where
  agents : GoMap String RegisteredAgent := ∅
  ttl : Int
  deriving DecidableEq

/-- The zone of a node, when a resolver is set. -/
abbrev ZoneResolver := Option (String → String)

namespace Registry

def snapshotLocked (r : Registry) : List AgentInfo := r.agents.entries.map fun e => e.2.info

def sortSubjects (subjects : List TopologySubject) : List TopologySubject :=
  subjects.insertionSort fun a b => ¬ b.agentID < a.agentID

/-- The registered form of an agent: stamped, and with its node's zone when it has none. -/
def resolve (resolver : ZoneResolver) (now : Int) (info : AgentInfo) : AgentInfo :=
  let info := { info with joinedAt := now, lastSeen := now }
  match resolver with
  | some zoneFor => if info.zone = "" then { info with zone := zoneFor info.nodeName } else info
  | none => info

def register (resolver : ZoneResolver) (now : Int) (info : AgentInfo) (r : Registry) :
    Registry × Option Publication :=
  let stored := resolve resolver now info
  let agents := AList.insert stored.id ⟨stored, now, info.zone ≠ ""⟩ r.agents
  let r' := { r with agents }
  let subject : TopologySubject := ⟨stored.id, stored.nodeName, stored.zone, stored.labels⟩
  (r', some ⟨r'.snapshotLocked, .agentRegistered, [subject]⟩)

/-- The agents whose zone follows their node's label and differs from it. -/
def followsZone (nodeName zone : String) (a : RegisteredAgent) : Bool :=
  a.info.nodeName = nodeName ∧ a.zoneExplicit = false ∧ a.info.zone ≠ zone

def setZone (nodeName zone : String) (a : RegisteredAgent) : RegisteredAgent :=
  if followsZone nodeName zone a then { a with info := { a.info with zone } } else a

def updateZone (nodeName zone : String) (r : Registry) : Registry × Option Publication :=
  let moved := r.agents.entries.filter fun e => followsZone nodeName zone e.2
  let subjects : List TopologySubject := moved.map fun e =>
    ⟨e.2.info.id, nodeName, zone, e.2.info.labels⟩
  let r' := { r with agents := r.agents.mapValues (setZone nodeName zone) }
  if subjects = [] then (r', none)
  else (r', some ⟨r'.snapshotLocked, .zoneUpdated, sortSubjects subjects⟩)

def deregister (agentID : String) (r : Registry) : Registry × Option Publication :=
  match r.agents.lookup agentID with
  | none => (r, none)
  | some a =>
    let r' := { r with agents := r.agents.erase agentID }
    (r', some ⟨r'.snapshotLocked, .agentDeregistered, [a.subject agentID]⟩)

/-- The demotion path: nobody is told. -/
def resetQuiet (r : Registry) : Registry := { r with agents := ∅ }

def heartbeat (agentID : String) (now : Int) (r : Registry) : Registry × Bool :=
  match r.agents.lookup agentID with
  | none => (r, false)
  | some a =>
    let a := { a with lastSeen := now, info := { a.info with lastSeen := now } }
    ({ r with agents := AList.insert agentID a r.agents }, true)

def fresh (cutoff : Int) (a : RegisteredAgent) : Bool := cutoff ≤ a.lastSeen

def evictStale (now : Int) (r : Registry) : Registry × Option Publication :=
  let cutoff := now - r.ttl
  let stale := r.agents.entries.filter fun e => !fresh cutoff e.2
  let subjects := stale.map fun e => e.2.subject e.1
  let r' := { r with agents := r.agents.sieve (fresh cutoff) }
  if subjects = [] then (r', none)
  else (r', some ⟨r'.snapshotLocked, .agentEvicted, sortSubjects subjects⟩)

def setTTL (ttl : Int) (r : Registry) : Registry := { r with ttl }

def getPeers (excludeID : String) (r : Registry) : List AgentInfo :=
  (r.agents.entries.filter fun e => e.1 ≠ excludeID).map fun e => e.2.info

end Registry

/-! ## Histories -/

/-- The mutations that announce themselves. -/
inductive Op where
  | register (resolver : ZoneResolver) (now : Int) (info : AgentInfo)
  | updateZone (nodeName zone : String)
  | deregister (agentID : String)
  | evictStale (now : Int)

namespace Registry

def apply (r : Registry) : Op → Registry × Option Publication
  | .register resolver now info => r.register resolver now info
  | .updateZone nodeName zone => r.updateZone nodeName zone
  | .deregister agentID => r.deregister agentID
  | .evictStale now => r.evictStale now

/-! ## What a mutation does -/

@[simp] theorem resolve_id (resolver : ZoneResolver) (now : Int) (info : AgentInfo) :
    (resolve resolver now info).id = info.id := by
  unfold resolve
  cases resolver with
  | none => rfl
  | some zoneFor => dsimp only; split <;> rfl

@[simp] theorem resolve_nodeName (resolver : ZoneResolver) (now : Int) (info : AgentInfo) :
    (resolve resolver now info).nodeName = info.nodeName := by
  unfold resolve
  cases resolver with
  | none => rfl
  | some zoneFor => dsimp only; split <;> rfl

/-- Every agent is stored under its own id. -/
def Keyed (r : Registry) : Prop := ∀ id a, r.agents.lookup id = some a → a.info.id = id

theorem agents_updateZone (r : Registry) (nodeName zone : String) : (r.updateZone nodeName zone).1 =
      { r with agents := r.agents.mapValues (setZone nodeName zone) } := by
  unfold updateZone
  dsimp only
  split <;> rfl

theorem agents_evictStale (r : Registry) (now : Int) :
    (r.evictStale now).1 = { r with agents := r.agents.sieve (fresh (now - r.ttl)) } := by
  unfold evictStale
  dsimp only
  split <;> rfl

variable {r : Registry}

theorem keyed_apply (keyed : r.Keyed) (op : Op) : (r.apply op).1.Keyed := by
  cases op with
  | register resolver now info =>
    intro id a ha
    simp only [apply, register, GoMap.lookup_insert_if] at ha
    split at ha
    · rename_i same
      cases ha
      exact same.symm
    · exact keyed id a ha
  | updateZone nodeName zone =>
    intro id a ha
    rw [apply, agents_updateZone, GoMap.lookup_mapValues, Option.map_eq_some_iff] at ha
    obtain ⟨b, hb, rfl⟩ := ha
    unfold setZone
    split <;> exact keyed id b hb
  | deregister agentID =>
    intro id a ha
    simp only [apply, deregister] at ha
    split at ha
    · exact keyed id a ha
    · rw [GoMap.lookup_erase_if] at ha
      split at ha
      · cases ha
      · exact keyed id a ha
  | evictStale now =>
    intro id a ha
    rw [apply, agents_evictStale, GoMap.lookup_sieve, Option.filter_eq_some_iff] at ha
    exact keyed id a ha.1

/-- A publication carries the agents after the mutation. -/
theorem agents_of_published {op : Op} {p : Publication} (published : (r.apply op).2 = some p) :
    p.agents = (r.apply op).1.snapshotLocked := by
  cases op with
  | register resolver now info =>
    cases published
    rfl
  | updateZone nodeName zone =>
    simp only [apply, updateZone] at published ⊢
    split at published <;> cases published
    rename_i some
    rw [if_neg some]
  | deregister agentID =>
    simp only [apply, deregister] at published ⊢
    split at published <;> cases published
    rfl
  | evictStale now =>
    simp only [apply, evictStale] at published ⊢
    split at published <;> cases published
    rename_i some
    rw [if_neg some]

/-- A mutation that publishes nothing changed nothing. -/
theorem lookup_of_unpublished {op : Op} (silent : (r.apply op).2 = none) (id : String) :
    (r.apply op).1.agents.lookup id = r.agents.lookup id := by
  cases op with
  | register resolver now info => cases silent
  | updateZone nodeName zone =>
    simp only [apply, updateZone] at silent ⊢
    split at silent
    · rename_i none
      rw [if_pos none]
      have stays : ∀ a, r.agents.lookup id = some a → followsZone nodeName zone a = false := by
        intro a ha
        have kept := List.filter_eq_nil_iff.mp (List.map_eq_nil_iff.mp none) ⟨id, a⟩
          (AList.mem_lookup_iff.mp ha)
        simpa using kept
      change (r.agents.mapValues (setZone nodeName zone)).lookup id = _
      rw [GoMap.lookup_mapValues]
      cases ha : r.agents.lookup id with
      | none => rfl
      | some a => simp [setZone, stays a ha]
    · cases silent
  | deregister agentID =>
    simp only [apply, deregister] at silent ⊢
    split at silent
    · rfl
    · cases silent
  | evictStale now =>
    simp only [apply, evictStale] at silent ⊢
    split at silent
    · rename_i none
      rw [if_pos none]
      change (r.agents.sieve (fresh (now - r.ttl))).lookup id = _
      rw [GoMap.lookup_sieve]
      cases ha : r.agents.lookup id with
      | none => rfl
      | some a =>
        have kept := List.filter_eq_nil_iff.mp (List.map_eq_nil_iff.mp none) ⟨id, a⟩
          (AList.mem_lookup_iff.mp ha)
        have fresh : fresh (now - r.ttl) a = true := by simpa using kept
        simp [Option.filter, fresh]
    · cases silent

theorem keyed_heartbeat (keyed : r.Keyed) (agentID : String) (now : Int) :
    (r.heartbeat agentID now).1.Keyed := by
  intro id a ha
  unfold heartbeat at ha
  split at ha
  · exact keyed id a ha
  · rename_i b hb
    simp only [GoMap.lookup_insert_if] at ha
    split at ha
    · rename_i same
      cases ha
      exact keyed id b (same ▸ hb)
    · exact keyed id a ha

end Registry

def eventsOf (published : Option Publication) : List TopologyChanged :=
  published.elim [] fun p => p.change.events

/-- A registry with the events it has published so far, oldest first. -/
structure History where
  registry : Registry
  events : List TopologyChanged := []

def History.apply (h : History) (op : Op) : History :=
  let (registry, published) := h.registry.apply op
  ⟨registry, h.events ++ eventsOf published⟩

/-- An empty registry taken through a sequence of mutations. -/
def History.run (ttl : Int) (ops : List Op) : History := ops.foldl History.apply ⟨⟨∅, ttl⟩, []⟩

end Kconmon.Controller
