import Kconmon.Controller.Registry
import Kconmon.Lib.Lists
import Kconmon.Lib.Loops

/-!
# What the published events tell

For each agent, the events about it since it last arrived. A live agent's latest
event states the node, zone and labels the registry holds now; an agent that
left has no events since. The console's fold is proved against this view.
-/
namespace Kconmon.Controller
open Lib Model Registry

def TopologyChanged.departs (e : TopologyChanged) : Bool :=
  e.reason = .agentDeregistered ∨ e.reason = .agentEvicted

/-- The events about an agent after its last departure, newest first. -/
def sinceArrival (events : List TopologyChanged) (id : String) : List TopologyChanged :=
  (events.filter fun e => e.agentId = id).reverse.takeWhile fun e => !e.departs

/-- The zone that the newest of these events with a zone states. -/
def lastStatedZone (events : List TopologyChanged) (id : String) : String :=
  ((sinceArrival events id).find? fun e => e.zone ≠ "").elim "" fun e => e.zone

/-- The labels that the newest of these events with labels states. -/
def lastStatedLabels (events : List TopologyChanged) (id : String) : Option Labels :=
  ((sinceArrival events id).find? fun e => e.labels ≠ []).map fun e => e.labels

variable {id : String}

theorem agentId_of_sinceArrival {events : List TopologyChanged} {e : TopologyChanged}
    (he : (sinceArrival events id).head? = some e) : e ∈ events ∧ e.agentId = id := by
  have inside := (List.takeWhile_sublist _).mem (List.mem_of_mem_head? he)
  simpa using inside

variable {es : List TopologyChanged}

theorem sinceArrival_unrelated (unrelated : ∀ e ∈ es, e.agentId ≠ id)
    (events : List TopologyChanged) : sinceArrival (events ++ es) id = sinceArrival events id := by
  have none : es.filter (fun e => e.agentId = id) = [] := by simpa using unrelated
  simp [sinceArrival, none]

/-- A batch about distinct agents moves each of them by its own event. -/
theorem sinceArrival_batch (distinct : (es.map TopologyChanged.agentId).Nodup) {e : TopologyChanged}
    (he : e ∈ es) (events : List TopologyChanged) : sinceArrival (events ++ es) e.agentId =
      if e.departs then [] else e :: sinceArrival events e.agentId := by
  have one := filter_key_eq_singleton distinct he
  cases departs : e.departs <;> simp [sinceArrival, one, departs]

theorem sinceArrival_snoc (events : List TopologyChanged) (e : TopologyChanged) (id : String) :
    sinceArrival (events ++ [e]) id =
      if e.agentId = id then if e.departs then [] else e :: sinceArrival events id
      else sinceArrival events id := by
  by_cases same : e.agentId = id
  · subst same
    rw [sinceArrival_batch (by simp) (List.mem_singleton_self e), if_pos rfl]
  · rw [sinceArrival_unrelated (by simpa using same), if_neg same]

/-! ## The registry behind the events -/

/-- Who an event is about, and where: no field is empty and the node is the agent's own. -/
def TopologyChanged.Attributed (home : String → String) (e : TopologyChanged) : Prop :=
  e.agentId ≠ "" ∧ e.nodeName ≠ "" ∧ e.nodeName = home e.agentId

/-- The event states what the registry holds for the agent. -/
def TopologyChanged.Tells (e : TopologyChanged) (a : RegisteredAgent) : Prop :=
  e.nodeName = a.info.nodeName ∧ e.zone = a.info.zone ∧ e.labels = a.info.labels

structure Told (home : String → String) (h : History) : Prop where
  attributed : ∀ e ∈ h.events, e.Attributed home
  live : ∀ id a, h.registry.agents.lookup id = some a →
    a.info.id = id ∧ ∃ e, (sinceArrival h.events id).head? = some e ∧ e.Tells a
  gone : ∀ id, h.registry.agents.lookup id = none → sinceArrival h.events id = []

/-- What an operation registers. -/
def Op.registers : Op → Option AgentInfo
  | .register _ _ info => some info
  | _ => none

def Op.Registers (home : String → String) (op : Op) : Prop := ∀ info, op.registers = some info →
    info.id ≠ "" ∧ info.nodeName ≠ "" ∧ info.nodeName = home info.id

namespace Told
variable {home : String → String} {h : History}

section
variable (told : Told home h)
include told

/-- A registered agent is attributed as its events are. -/
theorem attributed_live {a : RegisteredAgent}
    (ha : h.registry.agents.lookup id = some a) :
    id ≠ "" ∧ a.info.nodeName ≠ "" ∧ a.info.nodeName = home id := by
  obtain ⟨-, e, he, node, -, -⟩ := told.live id a ha
  obtain ⟨mem, same⟩ := agentId_of_sinceArrival he
  obtain ⟨hid, hnode, hhome⟩ := told.attributed e mem
  exact ⟨same ▸ hid, node ▸ hnode, by rw [← node, hhome, same]⟩

/-- A batch of events about distinct agents keeps the view when each event tells what the
new registry holds for its agent, and the other agents are as before. -/
theorem batch {r : Registry}
    (distinct : (es.map TopologyChanged.agentId).Nodup) (attributed : ∀ e ∈ es, e.Attributed home)
    (touched : ∀ e ∈ es, if e.departs then r.agents.lookup e.agentId = none
      else ∃ a, r.agents.lookup e.agentId = some a ∧ a.info.id = e.agentId ∧ e.Tells a)
    (untouched : ∀ id, (∀ e ∈ es, e.agentId ≠ id) →
      r.agents.lookup id = h.registry.agents.lookup id) :
    Told home ⟨r, h.events ++ es⟩ := by
  refine ⟨fun e he => ?_, fun id a ha => ?_, fun id ha => ?_⟩
  · rcases List.mem_append.mp he with old | new
    · exact told.attributed e old
    · exact attributed e new
  · by_cases named : ∃ e ∈ es, e.agentId = id
    · obtain ⟨e, he, rfl⟩ := named
      have state := touched e he
      split at state
      · rw [state] at ha
        cases ha
      · rename_i stays
        obtain ⟨b, hb, hid, tells⟩ := state
        cases hb.symm.trans ha
        exact ⟨hid, e, by simp [sinceArrival_batch distinct he, stays], tells⟩
    · push Not at named
      rw [untouched id named] at ha
      dsimp only
      rw [sinceArrival_unrelated named]
      exact told.live id a ha
  · by_cases named : ∃ e ∈ es, e.agentId = id
    · obtain ⟨e, he, rfl⟩ := named
      have state := touched e he
      split at state
      · rename_i leaves
        simp [sinceArrival_batch distinct he, leaves]
      · obtain ⟨b, hb, -⟩ := state
        rw [hb] at ha
        cases ha
    · push Not at named
      rw [untouched id named] at ha
      exact (sinceArrival_unrelated named h.events).trans (told.gone id ha)

theorem register (resolver : ZoneResolver) (now : Int) {info : AgentInfo}
    (valid : info.id ≠ "" ∧ info.nodeName ≠ "" ∧ info.nodeName = home info.id) :
    Told home (h.apply (.register resolver now info)) := by
  refine told.batch (List.nodup_singleton _) ?_ ?_ ?_
  · intro e he
    obtain rfl := List.mem_singleton.mp he
    simpa [TopologyChanged.Attributed, TopologySubject.event] using valid
  · intro e he
    obtain rfl := List.mem_singleton.mp he
    exact ⟨_, AList.lookup_insert _, rfl, rfl, rfl, rfl⟩
  · intro id other
    exact AList.lookup_insert_ne (Ne.symm (other _ (List.mem_singleton_self _)))

theorem deregister (agentID : String) : Told home (h.apply (.deregister agentID)) := by
  cases ha : h.registry.agents.lookup agentID with
  | none =>
    have step : h.registry.deregister agentID = (h.registry, none) := by
      simp [Registry.deregister, ha]
    simpa [History.apply, Registry.apply, step, eventsOf] using told
  | some a =>
    let r : Registry := { h.registry with agents := h.registry.agents.erase agentID }
    have step : h.registry.deregister agentID =
        (r, some ⟨r.snapshotLocked, .agentDeregistered, [a.subject agentID]⟩) := by
      simp [Registry.deregister, ha, r]
    simp only [History.apply, Registry.apply, step]
    refine told.batch (List.nodup_singleton _) ?_ ?_ ?_
    · intro e he
      obtain rfl := List.mem_singleton.mp he
      exact told.attributed_live ha
    · intro e he
      obtain rfl := List.mem_singleton.mp he
      exact AList.lookup_erase _ _
    · intro id other
      exact AList.lookup_erase_ne (Ne.symm (other _ (List.mem_singleton_self _)))

end

theorem perm_sortSubjects (subjects : List TopologySubject) :
    (sortSubjects subjects).Perm subjects := List.perm_insertionSort _ subjects

/-- A sweep publishes one event for each subject it collected, and nothing when it has none. -/
theorem eventsOf_sweep (r : Registry) (reason : Reason) (subjects : List TopologySubject) :
    eventsOf (if subjects = [] then (r, none)
      else (r, some ⟨r.snapshotLocked, reason, sortSubjects subjects⟩)).2 =
      (sortSubjects subjects).map (TopologySubject.event reason) := by
  split
  · rename_i none
    subst none
    rfl
  · rename_i some
    have sorted : sortSubjects subjects ≠ [] := fun empty =>
      some (List.perm_nil.mp (empty ▸ perm_sortSubjects subjects).symm)
    simp [eventsOf, TopologyChange.events, sorted]

section
variable (told : Told home h)
include told

/-- The batch rule for a sweep: its subjects are collected from entries of the registry. -/
theorem sweep {r : Registry} (reason : Reason)
    (p : RegisteredAgent → Bool) (subject : String → RegisteredAgent → TopologySubject)
    (ids : ∀ id a, h.registry.agents.lookup id = some a → (subject id a).agentID = id)
    (node : ∀ id a, p a = true → (subject id a).nodeName = a.info.nodeName)
    (touched : ∀ id a, h.registry.agents.lookup id = some a → p a = true →
      if ((subject id a).event reason).departs then r.agents.lookup id = none
      else ∃ b, r.agents.lookup id = some b ∧ b.info.id = id ∧
        ((subject id a).event reason).Tells b)
    (untouched : ∀ id, (∀ a, h.registry.agents.lookup id = some a → p a = false) →
      r.agents.lookup id = h.registry.agents.lookup id) :
    Told home ⟨r, h.events ++ (sortSubjects ((h.registry.agents.entries.filter
      fun e => p e.2).map fun e => subject e.1 e.2)).map (TopologySubject.event reason)⟩ := by
  set collected := h.registry.agents.entries.filter fun e => p e.2
  have stored : ∀ e ∈ collected, h.registry.agents.lookup e.1 = some e.2 ∧ p e.2 = true := by
    intro e he
    obtain ⟨mem, pe⟩ := List.mem_filter.mp he
    exact ⟨AList.mem_lookup_iff.mpr mem, pe⟩
  have about : ∀ e, e ∈ (sortSubjects (collected.map fun e => subject e.1 e.2)).map
      (TopologySubject.event reason) ↔
      ∃ id a, h.registry.agents.lookup id = some a ∧ p a = true ∧ e = (subject id a).event reason :=
        by
    intro e
    rw [List.mem_map]
    constructor
    · rintro ⟨s, hs, rfl⟩
      obtain ⟨⟨id, a⟩, he, rfl⟩ := List.mem_map.mp ((perm_sortSubjects _).mem_iff.mp hs)
      exact ⟨id, a, (stored _ he).1, (stored _ he).2, rfl⟩
    · rintro ⟨id, a, ha, pa, rfl⟩
      refine ⟨subject id a, (perm_sortSubjects _).mem_iff.mpr (List.mem_map.mpr ⟨⟨id, a⟩, ?_, rfl⟩),
        rfl⟩
      exact List.mem_filter.mpr ⟨AList.mem_lookup_iff.mp ha, pa⟩
  refine told.batch ?_ ?_ ?_ ?_
  · have keys : collected.map (fun e => (subject e.1 e.2).agentID) = collected.map Sigma.fst :=
      List.map_congr_left fun e he => ids _ _ (stored e he).1
    have perm := ((perm_sortSubjects (collected.map fun e => subject e.1 e.2)).map
      (TopologySubject.event reason)).map TopologyChanged.agentId
    refine perm.nodup_iff.mpr ?_
    rw [List.map_map, List.map_map]
    change (collected.map fun e => (subject e.1 e.2).agentID).Nodup
    rw [keys]
    exact h.registry.agents.nodupKeys.sublist List.filter_sublist
  · intro e he
    obtain ⟨id, a, ha, pa, rfl⟩ := (about e).mp he
    have valid := told.attributed_live ha
    simpa [TopologyChanged.Attributed, TopologySubject.event, ids id a ha, node id a pa] using valid
  · intro e he
    obtain ⟨id, a, ha, pa, rfl⟩ := (about e).mp he
    have same : ((subject id a).event reason).agentId = id := ids id a ha
    rw [same]
    exact touched id a ha pa
  · intro id other
    refine untouched id fun a ha => ?_
    by_contra pa
    exact other _ ((about _).mpr ⟨id, a, ha, by simpa using pa, rfl⟩) (ids id a ha)

theorem updateZone (nodeName zone : String) : Told home (h.apply (.updateZone nodeName zone)) := by
  have events := eventsOf_sweep
    { h.registry with agents := h.registry.agents.mapValues (setZone nodeName zone) }
    .zoneUpdated ((h.registry.agents.entries.filter fun e =>
      followsZone nodeName zone e.2).map fun e =>
        ⟨e.2.info.id, nodeName, zone, e.2.info.labels⟩)
  change Told home ⟨(h.registry.updateZone nodeName zone).1,
    h.events ++ eventsOf (h.registry.updateZone nodeName zone).2⟩
  rw [Registry.agents_updateZone, Registry.updateZone, events]
  refine told.sweep .zoneUpdated (Registry.followsZone nodeName zone)
    (fun _ a => ⟨a.info.id, nodeName, zone, a.info.labels⟩) (fun id a ha =>
      (told.live id a ha).1) ?_ ?_ ?_
  · intro id a follows
    simp only [followsZone, decide_eq_true_eq] at follows
    exact follows.1.symm
  · intro id a ha follows
    have moved : setZone nodeName zone a = { a with info := { a.info with zone } } := by
      simp [setZone, follows]
    simp only [followsZone, decide_eq_true_eq] at follows
    exact ⟨{ a with info := { a.info with zone } }, by simp [ha, moved], (told.live id a ha).1,
      follows.1.symm, rfl, rfl⟩
  · intro id stays
    rw [GoMap.lookup_mapValues]
    cases ha : h.registry.agents.lookup id with
    | none => rfl
    | some a => simp [setZone, stays a ha]

theorem evictStale (now : Int) : Told home (h.apply (.evictStale now)) := by
  let kept := h.registry.agents.sieve (fresh (now - h.registry.ttl))
  have events := eventsOf_sweep { h.registry with agents := kept } .agentEvicted
    ((h.registry.agents.entries.filter fun e =>
      !Registry.fresh (now - h.registry.ttl) e.2).map fun e => e.2.subject e.1)
  change Told home ⟨(h.registry.evictStale now).1,
    h.events ++ eventsOf (h.registry.evictStale now).2⟩
  rw [Registry.agents_evictStale, Registry.evictStale, events]
  refine told.sweep .agentEvicted (fun a => !Registry.fresh (now - h.registry.ttl) a)
    (fun id a => a.subject id) (fun _ _ _ => rfl) (fun _ _ _ => rfl) ?_ ?_
  · intro id a ha stale
    have gone : kept.lookup id = none := by
      simpa [kept, GoMap.lookup_sieve, ha, Option.filter] using stale
    exact gone
  · intro id stays
    change kept.lookup id = _
    rw [GoMap.lookup_sieve]
    cases ha : h.registry.agents.lookup id with
    | none => rfl
    | some a =>
      have fresh : fresh (now - h.registry.ttl) a = true := by simpa using stays a ha
      simp [Option.filter, fresh]

theorem apply {op : Op} (valid : op.Registers home) : Told home (h.apply op) := by
  cases op with
  | register resolver now info => exact told.register resolver now (valid info rfl)
  | updateZone nodeName zone => exact told.updateZone nodeName zone
  | deregister agentID => exact told.deregister agentID
  | evictStale now => exact told.evictStale now

end

/-- The view holds after every history. -/
theorem run (ttl : Int) {ops : List Op} (valid : ∀ op ∈ ops, op.Registers home) :
    Told home (History.run ttl ops) := by
  refine foldl_invariant ?_ fun h op hop told => told.apply (valid op hop)
  exact ⟨by simp, by simp, by simp [sinceArrival]⟩

end Told

end Kconmon.Controller
