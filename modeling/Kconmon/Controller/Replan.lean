import Kconmon.Controller.Registry
import Kconmon.Lib.Runs
import Kconmon.Meshplan.Determinism

/-!
# The plan in force

A mutation of the registry and a topology reload both install a plan: the mutation from
its snapshot and the topology it loads in the callback, the reload from the topology it
has just stored and the agents it then finds. `notifyMu` orders the publications, `mu`
guards the registry, and the topology is an atomic pointer outside both. A call is
cut at each of its lock operations, its write, the load or store of the topology,
`SetPeerPlan` and `SchedulePeerBroadcast`.
-/
namespace Kconmon.Controller.Replan
open Lib Model Meshplan

/-- A listing of the registry and the number of the published mutation that it reflects. -/
structure Snapshot where
  agents : List AgentInfo
  mutation : Nat
  deriving DecidableEq

/-- What `ApplyConfig` still has to do after the topology: the new agent TTL, if it changed. -/
abbrev NewTTL := Option Int

/-- The next thing a call does. Where there is an `after`, `none` is a mutation of the registry. -/
inductive Stage where
  /-- `notifyMu.Lock` of a mutation. -/
  | called (op : Op)
  /-- `mu.Lock` of a mutation. -/
  | ordered (op : Op)
  /-- The mutation and its snapshot. -/
  | writing (op : Op)
  /-- `mu.Unlock`; a mutation that changed nothing has no snapshot to publish. -/
  | written (published : Option Snapshot)
  /-- `mu.RLock` of `notifyChange`. -/
  | notifying (snap : Snapshot)
  /-- `mu.RUnlock` of `notifyChange`. -/
  | copying (snap : Snapshot)
  /-- `topology.Load` in the callback. -/
  | loading (snap : Snapshot)
  /-- `ApplyConfig` up to the comparison of the topologies. -/
  | applying (next : TopologyConfig) (ttl : Int)
  /-- `topology.Store`. -/
  | storing (next : TopologyConfig) (ttl : NewTTL)
  /-- `notifyMu.Lock` of `WithSnapshot`. -/
  | entering (next : TopologyConfig) (ttl : NewTTL)
  /-- `mu.RLock` of `WithSnapshot`. -/
  | snapshotting (next : TopologyConfig) (ttl : NewTTL)
  /-- The snapshot of `WithSnapshot`. -/
  | reading (next : TopologyConfig) (ttl : NewTTL)
  /-- `mu.RUnlock` of `WithSnapshot`. -/
  | read (snap : Snapshot) (next : TopologyConfig) (ttl : NewTTL)
  /-- `SetPeerPlan` of a plan for these agents and this topology. -/
  | planning (snap : Snapshot) (topology : TopologyConfig) (after : Option NewTTL)
  /-- `SchedulePeerBroadcast`. -/
  | scheduling (snap : Snapshot) (after : Option NewTTL)
  /-- `notifyMu.Unlock`. -/
  | leaving (after : Option NewTTL)
  /-- `mu.Lock` of `SetTTL`. -/
  | settling (ttl : NewTTL)
  /-- The write of `SetTTL` and its `mu.Unlock`. -/
  | settingTTL (ttl : Int)

/-- The part of the applied configuration that a reload compares. -/
structure Applied where
  topology : TopologyConfig
  agentTTL : Int

structure State where
  registry : Registry
  topology : TopologyConfig
  applied : Applied
  plan : Option Plan
  notifyMu : Option Nat := none
  mu : Option Nat := none
  calls : GoMap Nat Stage := ∅
  /-- The listing at the start and after each published mutation. -/
  history : List (List AgentInfo)
  /-- How often a reload stored another topology. -/
  reloads : Nat := 0
  /-- What `SchedulePeerBroadcast` was called with, oldest first. -/
  scheduled : List Snapshot := []

namespace Stage

def isReload : Stage → Bool
  | applying _ _ | storing _ _ | entering _ _ | snapshotting _ _ | reading _ _ | read _ _ _
  | planning _ _ (some _) | scheduling _ (some _) | leaving (some _) | settling _
  | settingTTL _ => true
  | _ => false

end Stage

namespace State

def become (st : State) (q : Nat) (stage : Stage) : State :=
  { st with calls := AList.insert q stage st.calls }

def finish (st : State) (q : Nat) : State := { st with calls := st.calls.erase q }

/-- A reload is in progress. -/
def reloading (st : State) : Bool := st.calls.entries.any fun e => e.2.isReload

/-- The registry listed in map order. -/
def snapshot (ord : RangeOrder) (st : State) : List AgentInfo :=
    ord.visit 5 st.registry.snapshotLocked

end State

inductive Action where
  | begin (q : Nat) (op : Op)
  | reload (q : Nat) (next : TopologyConfig) (ttl : Int)
  | advance (q : Nat) (ord : RangeOrder)

/-- `notifyMu.Lock` -/
def lockNotify (st : State) (q : Nat) (stage : Stage) : Option State :=
  if st.notifyMu = none then some { st.become q stage with notifyMu := some q } else none

/-- `mu.Lock` or `mu.RLock`: every reader in this model holds `notifyMu`, so no two overlap. -/
def lock (st : State) (q : Nat) (stage : Stage) : Option State :=
  if st.mu = none then some { st.become q stage with mu := some q } else none

/-- The mutation of one call and, when it is published, its snapshot. -/
def mutate (ord : RangeOrder) (q : Nat) (op : Op) (st : State) : State :=
  let st' := { st with registry := (st.registry.apply op).1 }
  match (st.registry.apply op).2 with
  | none => st'.become q (.written none)
  | some _ => { st'.become q (.written (some ⟨st'.snapshot ord, st.history.length⟩)) with
      history := st.history ++ [st'.registry.snapshotLocked] }

/-- One step of the call `q` that is at `stage`; a plan that cannot be built stops the process. -/
def advance (ord : RangeOrder) (q : Nat) (st : State) : Stage → Option State
  | .called op => lockNotify st q (.ordered op)
  | .ordered op => lock st q (.writing op)
  | .writing op => some (mutate ord q op st)
  | .written none => some { st.become q (.leaving none) with mu := none }
  | .written (some snap) => some { st.become q (.notifying snap) with mu := none }
  | .notifying snap => lock st q (.copying snap)
  | .copying snap => some { st.become q (.loading snap) with mu := none }
  | .loading snap => some (st.become q (.planning snap st.topology none))
  | .applying next ttl =>
    let changed := if ttl = st.applied.agentTTL then none else some ttl
    let st' := { st with applied := ⟨next, ttl⟩ }
    if st.applied.topology = next then some (st'.become q (.settling changed))
    else some (st'.become q (.storing next changed))
  | .storing next ttl =>
    some { st.become q (.entering next ttl) with topology := next, reloads := st.reloads + 1 }
  | .entering next ttl => lockNotify st q (.snapshotting next ttl)
  | .snapshotting next ttl => lock st q (.reading next ttl)
  | .reading next ttl =>
    some (st.become q (.read ⟨st.snapshot ord, st.history.length - 1⟩ next ttl))
  | .read snap next ttl => some { st.become q (.planning snap next (some ttl)) with mu := none }
  | .planning snap topology after =>
    match build ord snap.agents topology with
    | .ok plan => some { st.become q (.scheduling snap after) with plan }
    | .error _ => none
  | .scheduling snap after =>
    some { st.become q (.leaving after) with scheduled := st.scheduled ++ [snap] }
  | .leaving none => some { st.finish q with notifyMu := none }
  | .leaving (some ttl) => some { st.become q (.settling ttl) with notifyMu := none }
  | .settling none => some (st.finish q)
  | .settling (some ttl) => lock st q (.settingTTL ttl)
  | .settingTTL ttl => some { st.finish q with registry := st.registry.setTTL ttl, mu := none }

/-- Reloads come one at a time, from the config loader's goroutine. -/
def step (st : State) : Action → Option State
  | .begin q op => if q ∈ st.calls then none else some (st.become q (.called op))
  | .reload q next ttl =>
    if q ∈ st.calls ∨ st.reloading then none else some (st.become q (.applying next ttl))
  | .advance q ord => (st.calls.lookup q).bind (advance ord q st)

/-- A leader with the given agents, before any call. -/
def initial (registry : Registry) (applied : Applied) (plan : Option Plan) : State where
  registry := registry
  topology := applied.topology
  applied := applied
  plan := plan
  history := [registry.snapshotLocked]

end Kconmon.Controller.Replan
