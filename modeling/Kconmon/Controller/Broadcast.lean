import Kconmon.Controller.Registry
import Kconmon.Lib.Outbox
import Kconmon.Lib.Runs
import Kconmon.Meshplan.Basic

/-!
# Peer fan-out

A registry change runs under the registry's notification lock: mutate, install
the plan, schedule a broadcast. Scheduling records the newest snapshot and arms
one flush; a flush takes the snapshot and disarms, and later broadcasts it to
every watcher. Watchers register, read the registry, then the plan, and are sent
what results as their first update. These are separate steps that interleave.
-/
namespace Kconmon.Controller.Broadcast
open Lib Model Meshplan

/-- How many topology changes one stream may fall behind. -/
def peerWatcherBuffer : Nat := 16

def maxPort : Int := 65535

def portToProto (p : Int) : Nat := if p < 0 ∨ maxPort < p then 0 else p.toNat

/-- What a peer list says about an agent. -/
structure PeerMeta where
  id : String
  nodeName : String
  podIp : String
  zone : String
  httpPort : Nat
  udpPort : Nat
  deriving DecidableEq

def peerToProto (a : AgentInfo) : PeerMeta :=
  ⟨a.id, a.nodeName, a.podIP, a.zone, portToProto a.httpPort, portToProto a.udpPort⟩

/-- The peers of an update: a FULL_SYNC replaces the receiver's list. -/
abbrev Peers := List PeerMeta

def planned (plan : Option Plan) (agentID peerID : String) : Bool :=
  match plan with
  | none => true
  | some plan => peerID ∈ (plan.lookup agentID).getD []

def filterPeersByPlan (plan : Option Plan) (agentID : String) (peers : List AgentInfo) :
    List AgentInfo := peers.filter fun p => planned plan agentID p.id

/-- The list that a broadcast of a snapshot carries to one agent. -/
def peersFor (plan : Option Plan) (agentID : String) (agents : List AgentInfo) : Peers :=
  (agents.filter fun a => a.id ≠ agentID ∧ planned plan agentID a.id).map peerToProto

/-- A `WatchPeers` stream. -/
structure Watcher where
  agentID : String
  /-- The registry read that its first update is made from. -/
  read : Option (List AgentInfo) := none
  box : Outbox Peers := {}
  started : Bool := false
  desynced : Bool := false
  deriving DecidableEq

/-- How far the change that holds the notification lock has come. -/
inductive Change where
  | planning (agents : List AgentInfo)
  | scheduling (agents : List AgentInfo)
  deriving DecidableEq

def Change.agents : Change → List AgentInfo
  | planning agents => agents
  | scheduling agents => agents

structure State where
  registry : Registry
  plan : Option Plan := none
  changing : Option Change := none
  /-- The most recently scheduled snapshot. -/
  scheduled : List AgentInfo := []
  pendingPeers : List AgentInfo := []
  broadcastArmed : Bool := false
  /-- The flushes that took a snapshot and have not broadcast it. -/
  flushes : GoMap Nat (List AgentInfo) := ∅
  watchers : GoMap Nat Watcher := ∅

inductive Action where
  | change (op : Op)
  | heartbeat (agentID : String) (now : Int)
  | setPeerPlan
  | schedulePeerBroadcast
  | takePending (k : Nat)
  | broadcast (k : Nat)
  | watch (w : Nat) (agentID : String)
  | readPeers (w : Nat)
  | sendInitial (w : Nat)
  | pump (w : Nat)
  | unwatch (w : Nat)

/-- One watcher's share of a broadcast. -/
def Watcher.update (plan : Option Plan) (agents : List AgentInfo) (w : Watcher) : Watcher :=
  match w.box.offer peerWatcherBuffer (peersFor plan w.agentID agents) with
  | some box => { w with box }
  | none => { w with desynced := true }

def State.onWatcher (st : State) (w : Nat) (f : Watcher → Option Watcher) : Option State := do
  let s ← st.watchers.lookup w
  let s' ← f s
  return { st with watchers := AList.insert w s' st.watchers }

section
variable (planner : List AgentInfo → Option Plan)

def step (st : State) : Action → Option State
  | .change op =>
    if st.changing ≠ none then none
    else
      let (registry, published) := st.registry.apply op
      some { st with registry, changing := published.map fun p => .planning p.agents }
  | .heartbeat agentID now => some { st with registry := (st.registry.heartbeat agentID now).1 }
  | .setPeerPlan =>
    match st.changing with
    | some (.planning agents) =>
      some { st with plan := planner agents, changing := some (.scheduling agents) }
    | _ => none
  | .schedulePeerBroadcast =>
    match st.changing with
    | some (.scheduling agents) =>
      some { st with
        changing := none, scheduled := agents, pendingPeers := agents, broadcastArmed := true }
    | _ => none
  | .takePending k =>
    if st.broadcastArmed = false ∨ k ∈ st.flushes then none
    else some { st with
      flushes := AList.insert k st.pendingPeers st.flushes, pendingPeers := []
      broadcastArmed := false }
  | .broadcast k => (st.flushes.lookup k).map fun agents =>
    { st with
      flushes := st.flushes.erase k
      watchers := st.watchers.mapValues (Watcher.update st.plan agents) }
  | .watch w agentID =>
    if w ∈ st.watchers then none
    else some { st with watchers := AList.insert w { agentID } st.watchers }
  | .readPeers w => st.onWatcher w fun s =>
    if s.started ∨ s.read ≠ none then none
    else some { s with read := some (st.registry.getPeers s.agentID) }
  | .sendInitial w => st.onWatcher w fun s =>
    if s.started then none
    else s.read.map fun peers => { s with
      started := true
      box := s.box.sendNow ((filterPeersByPlan st.plan s.agentID peers).map peerToProto) }
  | .pump w => st.onWatcher w fun s =>
    if s.started then s.box.receive.map fun box => { s with box } else none
  | .unwatch w => some { st with watchers := st.watchers.erase w }

end

/-- The planner the controller installs. A fleet that the planner fails on has no plan. -/
def meshPlanner (ord : RangeOrder) (cfg : TopologyConfig) (agents : List AgentInfo) : Option Plan :=
  (build ord agents cfg).toOption.join

end Kconmon.Controller.Broadcast
