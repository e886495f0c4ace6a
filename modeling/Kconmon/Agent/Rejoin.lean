import Kconmon.Agent.PeerSeries

/-!
# Rejoining a controller

An agent that lost its controller registers again and keeps the peers it has: a new
leader starts with an empty registry, so until the end of a grace period its lists only
add peers. The peer watch and the heartbeat loop open such windows independently. Each
window is a generation, and the timer of an older one ends nothing.
-/
namespace Kconmon.Agent
open Lib

/-- The loops that register again. -/
inductive Caller where
  | peerWatch
  | heartbeat
  deriving DecidableEq

/-- Where a loop is in its `reconnect`. -/
inductive Phase where
  | idle
  | registering (gen : Nat)
  | registered (gen : Nat)
  deriving DecidableEq

def Phase.gen : Phase → Option Nat
  | .idle => none
  | .registering gen | .registered gen => some gen

/-- A list is installed through this module only. -/
def Event.replacesPeers : Event → Bool
  | .applyPeers .. => true
  | .adoptZone _ | .sweep _ | .probing _ => false

/-- What installing a list reads besides the list. -/
structure Reading where
  enabled : List CheckType
  clock : String → Int
  now : Int

structure Rejoin where
  agent : AgentState
  rejoining : Bool := false
  rejoinGen : Nat := 0
  /-- The newest list of the controller. The client never passes a nil one. -/
  controllerPeers : Option (List Target) := none
  phase : Caller → Phase := fun _ => .idle
  /-- The generations of the timers that have not fired. -/
  timers : List Nat := []
  /-- The agent's context has ended. -/
  stopped : Bool := false

/-- The next list and the peers of the current one that it does not name. -/
def mergePeers (next current : List Target) : List Target :=
  next ++ current.filter fun c => c.nodeName ∉ next.map Target.nodeName

namespace Rejoin

abbrev peers (st : Rejoin) : List Target := st.agent.peers

abbrev source (st : Rejoin) : Target := st.agent.source

def beginRejoin (w : Caller) (st : Rejoin) : Rejoin :=
  { st with
    rejoinGen := st.rejoinGen + 1
    rejoining := true
    phase := Function.update st.phase w (.registering (st.rejoinGen + 1)) }

def applyPeers (next : List Target) (read : Reading) (st : Rejoin) : Rejoin :=
  { st with agent := st.agent.applyPeers next read.enabled read.clock read.now }

def applyControllerPeers (next : List Target) (read : Reading) (st : Rejoin) : Rejoin :=
  let st := { st with controllerPeers := some next }
  st.applyPeers (if st.rejoining then mergePeers next st.peers else next) read

/-- The timer function of `endRejoinAfter`. -/
def endRejoin (gen : Nat) (read : Reading) (st : Rejoin) : Rejoin :=
  if gen ≠ st.rejoinGen ∨ st.rejoining = false then st
  else
    let st := { st with rejoining := false }
    match st.controllerPeers with
    | none => st
    | some peers => st.applyPeers peers read

inductive Action where
  | beginRejoin (w : Caller)
  /-- An attempt of the loop's `reregister` succeeds. -/
  | registered (w : Caller) (peers : List Target) (read : Reading)
  | endRejoinAfter (w : Caller)
  /-- The loop's `reregister` returns because the agent stops. -/
  | givenUp (w : Caller)
  | fired (gen : Nat) (read : Reading)
  /-- A list from the watch, or from a registration outside a rejoin. -/
  | update (peers : List Target) (read : Reading)
  | stop
  /-- Anything else the agent does. -/
  | other (e : Event)

def step (st : Rejoin) : Action → Option Rejoin
  | .beginRejoin w => if st.phase w = .idle then some (st.beginRejoin w) else none
  | .registered w peers read =>
    match st.phase w with
    | .registering gen =>
      some { st.applyControllerPeers peers read with
        phase := Function.update st.phase w (.registered gen) }
    | _ => none
  | .endRejoinAfter w =>
    match st.phase w with
    | .registered gen =>
      some { st with phase := Function.update st.phase w .idle, timers := gen :: st.timers }
    | _ => none
  | .givenUp w =>
    match st.phase w with
    | .registering _ =>
      if st.stopped then some { st with phase := Function.update st.phase w .idle } else none
    | _ => none
  | .fired gen read =>
    if gen ∈ st.timers then some ({ st with timers := st.timers.erase gen }.endRejoin gen read)
    else none
  | .update peers read => some (st.applyControllerPeers peers read)
  | .stop => some { st with stopped := true }
  | .other e =>
    if e.replacesPeers then none else (st.agent.step e).map fun agent => { st with agent }

/-! ## The lists -/

/-- The list without the entries that are this agent. -/
def selfFiltered (source : Target) (next : List Target) : List Target :=
  next.filter fun p => !Scheduler.isSelf source p

@[simp] theorem peers_applyPeers (next : List Target) (read : Reading) (st : Rejoin) :
    (st.applyPeers next read).peers = selfFiltered st.source next := rfl

@[simp] theorem source_applyPeers (next : List Target) (read : Reading) (st : Rejoin) :
    (st.applyPeers next read).source = st.source := rfl

variable {next : List Target}

/-- A merge and the filter after it lose a node of the current list only if the next list has
an entry of it that is this agent. -/
theorem mem_selfFiltered_mergePeers {source : Target} {current : List Target} {c : Target}
    (listed : c ∈ current) (foreign : Scheduler.isSelf source c = false) :
    c.nodeName ∈ (selfFiltered source (mergePeers next current)).map Target.nodeName ∨
      ∃ p ∈ next, p.nodeName = c.nodeName ∧ Scheduler.isSelf source p = true := by
  by_cases named : c.nodeName ∈ next.map Target.nodeName
  · obtain ⟨p, mem, name⟩ := List.mem_map.mp named
    by_cases own : Scheduler.isSelf source p = true
    · exact .inr ⟨p, mem, name, own⟩
    · refine .inl (name ▸ List.mem_map_of_mem (List.mem_filter.mpr ⟨?_, by simp [own]⟩))
      exact List.mem_append_left _ mem
  · refine .inl (List.mem_map_of_mem (List.mem_filter.mpr ⟨?_, by simp [foreign]⟩))
    exact List.mem_append_right _ (List.mem_filter.mpr ⟨listed, decide_eq_true named⟩)

/-- The other steps of an agent leave its list alone, and who it is. -/
theorem kept_other {st st' : AgentState} {e : Event} (taken : st.step e = some st')
    (other : e.replacesPeers = false) : st'.peers = st.peers ∧
      ∀ p, Scheduler.isSelf st'.source p = Scheduler.isSelf st.source p := by
  cases e with
  | applyPeers next enabled clock now => cases other
  | adoptZone zone =>
    cases taken
    unfold AgentState.adoptZone
    split <;> exact ⟨rfl, fun _ => rfl⟩
  | sweep now =>
    cases taken
    exact ⟨rfl, fun _ => rfl⟩
  | probing a =>
    simp only [AgentState.step] at taken
    split at taken
    · rename_i quiet
      obtain ⟨core, moved, rfl⟩ := Option.map_eq_some_iff.mp taken
      have same := AgentState.scheduler_of_probing quiet moved
      simp [AgentState.peers, AgentState.source, same]
    · cases taken

variable {st st' : Rejoin}

theorem step_other {e : Event} (taken : step st (.other e) = some st') :
    e.replacesPeers = false ∧ ∃ agent, st.agent.step e = some agent ∧ st' = { st with agent } := by
  simp only [step] at taken
  split at taken
  · cases taken
  · rename_i other
    obtain ⟨agent, moved, rfl⟩ := Option.map_eq_some_iff.mp taken
    exact ⟨by simpa using other, agent, moved, rfl⟩

/-! ## The invariant -/

/-- Some loop is registering again for that generation. -/
def Running (st : Rejoin) (gen : Nat) : Prop := ∃ w, (st.phase w).gen = some gen

structure Inv (st : Rejoin) : Prop where
  foreign : ∀ p ∈ st.peers, Scheduler.isSelf st.source p = false
  newest : ∀ list, st.controllerPeers = some list → st.rejoining = false →
    st.peers = selfFiltered st.source list
  ends : st.rejoining = true → st.Running st.rejoinGen ∨ st.rejoinGen ∈ st.timers ∨
    st.stopped = true

theorem foreign_selfFiltered {source p : Target} (listed : p ∈ selfFiltered source next) :
    Scheduler.isSelf source p = false := by
  simpa using (List.mem_filter.mp listed).2

theorem Inv.applyControllerPeers (inv : Inv st) (next : List Target) (read : Reading) :
    Inv (st.applyControllerPeers next read) where
  foreign _ listed := foreign_selfFiltered listed
  newest list held ended := by
    cases held
    have ended : st.rejoining = false := ended
    simp [Rejoin.applyControllerPeers, ended]
  ends := inv.ends

theorem Inv.endRejoin (inv : Inv st) (gen : Nat) (read : Reading) :
    Inv ({ st with timers := st.timers.erase gen }.endRejoin gen read) := by
  unfold Rejoin.endRejoin
  split
  · rename_i stale
    refine ⟨inv.foreign, inv.newest, fun rejoining => ?_⟩
    have rejoining : st.rejoining = true := rejoining
    have older : gen ≠ st.rejoinGen := stale.resolve_right (by simp [rejoining])
    rcases inv.ends rejoining with running | pending | stopped
    · exact .inl running
    · exact .inr (.inl ((List.mem_erase_of_ne older.symm).mpr pending))
    · exact .inr (.inr stopped)
  · dsimp only
    split
    · rename_i none
      refine ⟨inv.foreign, fun list held => ?_, by simp⟩
      have none : st.controllerPeers = Option.none := none
      cases none.symm.trans held
    · rename_i list newest
      refine ⟨fun _ listed => foreign_selfFiltered listed, fun list' held _ => ?_, ?_⟩
      · cases newest.symm.trans held
        rfl
      · simp [Rejoin.applyPeers]

/-- A loop moved on, and the newest generation is not without its loop or its timer. -/
theorem Running.update {gen : Nat} (running : st.Running gen) (w : Caller) (next : Phase) :
    (∃ w', (Function.update st.phase w next w').gen = some gen) ∨ (st.phase w).gen = some gen := by
  obtain ⟨w', here⟩ := running
  by_cases same : w' = w
  · exact .inr (same ▸ here)
  · exact .inl ⟨w', by rwa [Function.update_of_ne same]⟩

theorem Inv.step (inv : Inv st) {a : Action} (taken : step st a = some st') : Inv st' := by
  cases a with
  | beginRejoin w =>
    simp only [Rejoin.step] at taken
    split at taken <;> cases taken
    refine ⟨inv.foreign, fun _ _ ended => by simp [Rejoin.beginRejoin] at ended,
      fun _ => .inl ⟨w, ?_⟩⟩
    simp [Rejoin.beginRejoin, Phase.gen]
  | registered w peers read =>
    simp only [Rejoin.step] at taken
    split at taken <;> cases taken
    rename_i gen phase
    have applied := inv.applyControllerPeers peers read
    refine ⟨applied.foreign, applied.newest, fun rejoining => ?_⟩
    rcases inv.ends rejoining with running | later
    · refine .inl ((running.update w (.registered gen)).elim id fun own => ⟨w, ?_⟩)
      rw [phase] at own
      show (Function.update st.phase w (.registered gen) w).gen = some st.rejoinGen
      rw [Function.update_self]
      exact own
    · exact .inr later
  | endRejoinAfter w =>
    simp only [Rejoin.step] at taken
    split at taken <;> cases taken
    rename_i gen phase
    refine ⟨inv.foreign, inv.newest, fun rejoining => ?_⟩
    rcases inv.ends rejoining with running | pending | stopped
    · refine (running.update w .idle).imp id fun own => .inl ?_
      rw [phase] at own
      obtain rfl : gen = st.rejoinGen := by simpa [Phase.gen] using own
      exact List.mem_cons_self
    · exact .inr (.inl (List.mem_cons_of_mem _ pending))
    · exact .inr (.inr stopped)
  | givenUp w =>
    simp only [Rejoin.step] at taken
    split at taken
    · split at taken <;> cases taken
      rename_i stopped
      exact ⟨inv.foreign, inv.newest, fun _ => .inr (.inr stopped)⟩
    · cases taken
  | fired gen read =>
    simp only [Rejoin.step] at taken
    split at taken <;> cases taken
    exact inv.endRejoin gen read
  | update peers read =>
    cases taken
    exact inv.applyControllerPeers peers read
  | stop =>
    cases taken
    exact ⟨inv.foreign, inv.newest, fun _ => .inr (.inr rfl)⟩
  | other e =>
    obtain ⟨other, agent, moved, rfl⟩ := step_other taken
    obtain ⟨peers, same⟩ := kept_other moved other
    refine ⟨fun p listed => ?_, fun list held ended => ?_, inv.ends⟩
    · have listed : p ∈ agent.peers := listed
      rw [peers] at listed
      exact (same p).trans (inv.foreign p listed)
    · refine peers.trans ((inv.newest list held ended).trans ?_)
      exact List.filter_congr fun p _ => by rw [same]

theorem Inv.keeps_applyControllerPeers (inv : Inv st) {read : Reading}
    (rejoining : st.rejoining = true) {n : String} (probed : n ∈ st.peers.map Target.nodeName) :
    n ∈ (st.applyControllerPeers next read).peers.map Target.nodeName ∨
      ∃ list, (st.applyControllerPeers next read).controllerPeers = some list ∧
        ∃ p ∈ list, p.nodeName = n ∧ Scheduler.isSelf st.source p = true := by
  obtain ⟨c, listed, rfl⟩ := List.mem_map.mp probed
  refine (mem_selfFiltered_mergePeers listed (inv.foreign c listed)).imp (fun kept => ?_)
    fun own => ⟨next, rfl, own⟩
  simpa [Rejoin.applyControllerPeers, rejoining] using kept

/-- A timer that does not end the rejoin does nothing. -/
theorem peers_endRejoin {gen : Nat} {read : Reading}
    (rejoining : (st.endRejoin gen read).rejoining = true) :
    (st.endRejoin gen read).peers = st.peers := by
  unfold endRejoin at rejoining ⊢
  split at rejoining
  · rename_i stale
    rw [if_pos stale]
  · exfalso
    dsimp only at rejoining
    split at rejoining <;> simp [Rejoin.applyPeers] at rejoining

/-- While the agent is rejoining no step loses a node, unless the newest list has an entry of it
that is this agent. -/
theorem Inv.keeps (inv : Inv st) {a : Action} (taken : Rejoin.step st a = some st')
    (rejoining : st'.rejoining = true) {n : String} (probed : n ∈ st.peers.map Target.nodeName) :
    n ∈ st'.peers.map Target.nodeName ∨ ∃ list, st'.controllerPeers = some list ∧
      ∃ p ∈ list, p.nodeName = n ∧ Scheduler.isSelf st'.source p = true := by
  cases a with
  | beginRejoin w =>
    simp only [Rejoin.step] at taken
    split at taken <;> cases taken
    exact .inl probed
  | registered w peers read =>
    simp only [Rejoin.step] at taken
    split at taken <;> cases taken
    exact inv.keeps_applyControllerPeers rejoining probed
  | endRejoinAfter w =>
    simp only [Rejoin.step] at taken
    split at taken <;> cases taken
    exact .inl probed
  | givenUp w =>
    simp only [Rejoin.step] at taken
    split at taken
    · split at taken <;> cases taken
      exact .inl probed
    · cases taken
  | fired gen read =>
    simp only [Rejoin.step] at taken
    split at taken <;> cases taken
    exact .inl (peers_endRejoin rejoining ▸ probed)
  | update peers read =>
    cases taken
    exact inv.keeps_applyControllerPeers rejoining probed
  | stop =>
    cases taken
    exact .inl probed
  | other e =>
    obtain ⟨other, agent, moved, rfl⟩ := step_other taken
    have same : agent.peers = st.peers := (kept_other moved other).1
    rw [← same] at probed
    exact .inl probed

def initial (source : Source) : Rejoin where
  agent := AgentState.initial source

theorem inv_initial (source : Source) : Inv (initial source) := ⟨nofun, nofun, nofun⟩

end Rejoin

/-- However the loops' windows, their timers and the controller's lists interleave: while the
agent is rejoining, a step loses a node only if the newest list has an entry of that node that is
this agent by its id, node name or pod address. While it is not, it probes the newest list without
its own entries. And a rejoin ends: the newest generation is still being registered or its timer
is still to fire, unless the agent itself stops. -/
theorem rejoin_grace (source : Source) (st : Rejoin)
    (run : Reaches Rejoin.step (fun _ _ => True) (Rejoin.initial source) st) :
    (∀ a st', st.step a = some st' → st'.rejoining = true →
      ∀ n ∈ st.peers.map Target.nodeName, n ∈ st'.peers.map Target.nodeName ∨
        ∃ newest, st'.controllerPeers = some newest ∧
          ∃ p ∈ newest, p.nodeName = n ∧ Scheduler.isSelf st'.source p = true) ∧
    (∀ newest, st.controllerPeers = some newest → st.rejoining = false →
      st.peers = newest.filter fun p => !Scheduler.isSelf st.source p) ∧
    (st.rejoining = true → (∃ w, (st.phase w).gen = some st.rejoinGen) ∨
      st.rejoinGen ∈ st.timers ∨ st.stopped = true) := by
  have inv : Rejoin.Inv st := run.invariant (Rejoin.inv_initial source)
    fun _ _ _ inv _ => inv.step
  exact ⟨fun _ _ taken rejoining _ probed => inv.keeps taken rejoining probed, inv.newest, inv.ends⟩

/-- Both loops open a window; the first one's timer fires while the second still registers. -/
def twoWindows (read : Reading) : List Rejoin.Action :=
  [.update [{ agentID := "b", nodeName := "n2" }] read, .beginRejoin .peerWatch,
    .beginRejoin .heartbeat, .registered .peerWatch [] read, .endRejoinAfter .peerWatch,
    .fired 1 read]

theorem rejoin_grace_twoWindows : ∃ st st' : Rejoin, ∃ read,
    st.step (.update [{ agentID := "c", nodeName := "n3" }] read) = some st' ∧
      st'.rejoining = true ∧ "n2" ∈ st'.peers.map Target.nodeName ∧
      ((∃ w, (st.phase w).gen = some 2) ∨ 2 ∈ st.timers) := by
  let read : Reading := ⟨[.tcp], fun _ => 0, 0⟩
  let source : Source := ⟨{ agentID := "a", nodeName := "n1" }, by decide⟩
  let st := (exec (guarded Rejoin.step fun _ _ => True) (Rejoin.initial source)
    (twoWindows read)).get (by decide)
  have run : Reaches Rejoin.step (fun _ _ => True) (Rejoin.initial source) st :=
    Reaches.of_exec (Option.some_get _).symm
  let st' := (st.step (.update [{ agentID := "c", nodeName := "n3" }] read)).get (by decide)
  have taken : st.step (.update [{ agentID := "c", nodeName := "n3" }] read) = some st' :=
    (Option.some_get _).symm
  have rejoining : st'.rejoining = true := by decide
  obtain ⟨keeps, -, ends⟩ := rejoin_grace source st run
  refine ⟨st, st', read, taken, rejoining, ?_, ?_⟩
  · refine (keeps _ st' taken rejoining "n2" (by decide)).resolve_right ?_
    rintro ⟨newest, held, p, listed, name, -⟩
    have others : ∀ p ∈ st'.controllerPeers.getD [], p.nodeName ≠ "n2" := by decide
    rw [held] at others
    exact others p listed name
  · rcases ends (by decide) with running | pending | stopped
    · exact .inl running
    · exact .inr pending
    · exact absurd stopped (by decide)

end Kconmon.Agent
