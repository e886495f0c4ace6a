import Kconmon.Agent.Scheduler

/-!
# The per-pair series of an agent

Every per-pair family carries the four peer labels. Gauges go at once when a peer
leaves the plan; counters and histograms wait for a grace period, so that a controller
failover does not reset them, and the agent remembers when a peer left and under which
zone. A family is the set of its series; of the values only that of the plan gauge is kept.
-/
namespace Kconmon.Agent
open Lib

/-- The peer labels. -/
structure Pair where
  sourceNode : String
  destinationNode : String
  sourceZone : String
  destinationZone : String
  deriving DecidableEq

inductive Gauge where
  | udpLossRatio
  | udpJitter
  | icmpLossRatio
  | pmtuBytes
  | pmtuProbeBytes
  | mtrHops
  deriving DecidableEq

/-- The cumulative families, counters and histograms. -/
inductive Counter where
  | results (type : CheckType) (success : Bool)
  | mtrTriggered
  | tcpConnectDuration
  | tcpTotalDuration
  | udpRtt
  | icmpRtt
  deriving DecidableEq

structure Metrics where
  gauges : List (Gauge × Pair) := []
  counters : List (Counter × Pair) := []
  /-- `ProbeIntended`, by source and destination node. -/
  probeIntended : GoMap (String × String) Nat := ∅

namespace Metrics

def set (g : Gauge) (pair : Pair) (m : Metrics) : Metrics :=
  { m with gauges := List.insert (g, pair) m.gauges }

def delete (g : Gauge) (pair : Pair) (m : Metrics) : Metrics :=
  { m with gauges := m.gauges.filter (· ≠ (g, pair)) }

/-- A counter incremented, by zero included, or a histogram observed. -/
def add (c : Counter) (pair : Pair) (m : Metrics) : Metrics :=
  { m with counters := List.insert (c, pair) m.counters }

/-! ## Retirement -/

def forgetPairGauges (labels : Pair → Bool) (m : Metrics) : Metrics :=
  { m with gauges := m.gauges.filter fun s => !labels s.2 }

def retirePairs (labels : Pair → Bool) (m : Metrics) : Metrics :=
  { m with counters := m.counters.filter fun s => !labels s.2 }

def forgetPeer (node : String) (m : Metrics) : Metrics :=
  let m := m.forgetPairGauges fun pair => pair.destinationNode = node
  { m with probeIntended := m.probeIntended.sieveKeys fun key => key.2 ≠ node }

def retirePeer (node : String) (m : Metrics) : Metrics :=
  m.retirePairs fun pair => pair.destinationNode = node

def retirePeerZone (node zone : String) (m : Metrics) : Metrics :=
  let labels (pair : Pair) : Bool := pair.destinationNode = node ∧ pair.destinationZone = zone
  (m.forgetPairGauges labels).retirePairs labels

def retireSourceZone (node zone : String) (m : Metrics) : Metrics :=
  let labels (pair : Pair) : Bool := pair.sourceNode = node ∧ pair.sourceZone = zone
  (m.forgetPairGauges labels).retirePairs labels

end Metrics

def CheckResult.pair (r : CheckResult) : Pair := ⟨r.source, r.destination, r.sourceZone, r.destZone⟩

/-- The series of the peer families that the result handler writes. -/
def record (m : Metrics) (r : CheckResult) : Metrics :=
  match r.type with
  | .tcp =>
    let m :=
      if r.details = .tcp then
        let m := m.add .tcpConnectDuration r.pair
        if r.success then m.add .tcpTotalDuration r.pair else m
      else m
    m.add (.results .tcp r.success) r.pair
  | .udp =>
    let m :=
      match r.details with
      | .udp packetsRecv =>
        let m := if packetsRecv > 0 then (m.add .udpRtt r.pair).set .udpJitter r.pair else m
        m.set .udpLossRatio r.pair
      | _ => m
    m.add (.results .udp r.success) r.pair
  | .icmp =>
    let m := if r.details = .icmp ∨ r.success = false then m.set .icmpLossRatio r.pair else m
    let m := if r.details = .icmp ∧ r.success then m.add .icmpRtt r.pair else m
    m.add (.results .icmp r.success) r.pair
  | .pmtu =>
    if r.details = .pmtu false then
      ((m.set .pmtuBytes r.pair).set .pmtuProbeBytes r.pair).add (.results .pmtu r.success) r.pair
    else m
  | .mtr =>
    let m := m.add .mtrTriggered r.pair
    match r.details with
    | .mtr true => m.set .mtrHops r.pair
    | .mtr false => m.delete .mtrHops r.pair
    | _ => m
  | .dns | .http | .external => m

/-! ## The peer list -/

/-- When a peer left the plan and the zone it left under. -/
structure DepartedPeer where
  since : Int
  zone : String
  deriving DecidableEq

structure Books where
  metrics : Metrics := {}
  departed : GoMap String DepartedPeer := ∅

/-- `departedPeerGrace`, ten minutes in nanoseconds. -/
def departedPeerGrace : Int := 600000000000

namespace Books

/-- The first loop of `forgetDepartedPeers`: a peer of the next list is not departed. -/
def back (b : Books) (p : Target) : Books :=
  match b.departed.lookup p.nodeName with
  | none => b
  | some d =>
    { metrics := if d.zone ≠ p.zone then b.metrics.retirePeerZone p.nodeName d.zone else b.metrics
      departed := b.departed.erase p.nodeName }

/-- The zones of the next list; of several entries of one node the last one counts. -/
def keep (next : List Target) : GoMap String String :=
  next.foldl (fun m p => AList.insert p.nodeName p.zone m) ∅

/-- The second loop: a peer of the current list that is not in the next one, or changes its zone. -/
def gone (keep : GoMap String String) (clock : String → Int) (b : Books) (c : Target) : Books :=
  match keep.lookup c.nodeName with
  | none =>
    { metrics := b.metrics.forgetPeer c.nodeName
      departed :=
        if c.nodeName ∈ b.departed then b.departed
        else AList.insert c.nodeName ⟨clock c.nodeName, c.zone⟩ b.departed }
  | some zone =>
    if zone ≠ c.zone then { b with metrics := b.metrics.retirePeerZone c.nodeName c.zone } else b

/-- `forgetDepartedPeers`; `clock` is the time read for each departing node. -/
def forgetDepartedPeers (next current : List Target) (clock : String → Int) (b : Books) : Books :=
  current.foldl (gone (keep next) clock) (next.foldl back b)

def sweepOne (now : Int) (b : Books) (e : Sigma fun _ : String => DepartedPeer) : Books :=
  if now - e.2.since ≥ departedPeerGrace then
    { metrics := b.metrics.retirePeer e.1, departed := b.departed.erase e.1 }
  else b

def sweepDepartedPeers (now : Int) (b : Books) : Books := b.departed.entries.foldl (sweepOne now) b

/-- The peer checkers that have a results counter per pair. -/
def peerResults : CheckType → Bool
  | .tcp | .udp | .icmp | .pmtu => true
  | .dns | .http | .mtr | .external => false

def preinitPeerResults (source : Target) (peers : List Target) (enabled : List CheckType)
    (m : Metrics) : Metrics :=
  (enabled.filter peerResults).foldl (fun m type =>
    peers.foldl (fun m p =>
      let pair : Pair := ⟨source.nodeName, p.nodeName, source.zone, p.zone⟩
      (m.add (.results type true) pair).add (.results type false) pair) m) m

def markProbeIntended (source : Target) (peers : List Target) (m : Metrics) : Metrics :=
  { m with
    probeIntended := peers.foldl
      (fun family p => AList.insert (source.nodeName, p.nodeName) 1 family) m.probeIntended }

def syncPeerMetrics (source : Target) (peers : List Target) (enabled : List CheckType) (b : Books) :
    Books :=
  let metrics := preinitPeerResults source peers enabled b.metrics
  { b with metrics := markProbeIntended source peers metrics }

end Books

/-! ## The agent -/

/-- A peer entry that left the list, and when. -/
structure Departure where
  node : String
  zone : String
  since : Int
  deriving DecidableEq

/-- The entries of nodes that the new list has no entry of. -/
def departures (current next : List Target) (clock : String → Int) : List Departure :=
  (current.filter fun c => c.nodeName ∉ next.map Target.nodeName).map fun c =>
    ⟨c.nodeName, c.zone, clock c.nodeName⟩

/-- The scheduler with the series it feeds. The last two fields only record the past. -/
structure AgentState where
  core : State
  books : Books := {}
  lastSweep : Int := 0
  left : List Departure := []

namespace AgentState

abbrev source (st : AgentState) : Target := st.core.scheduler.source.toTarget

abbrev peers (st : AgentState) : List Target := st.core.scheduler.peers

abbrev metrics (st : AgentState) : Metrics := st.books.metrics

def applyPeers (next : List Target) (enabled : List CheckType) (clock : String → Int) (now : Int)
    (st : AgentState) : AgentState :=
  let books := st.books.forgetDepartedPeers next st.peers clock
  let scheduler := st.core.scheduler.replacePeers next
  let books := books.sweepDepartedPeers now
  { core := { st.core with scheduler }
    books := books.syncPeerMetrics scheduler.source.toTarget scheduler.peers enabled
    lastSweep := now
    left := st.left ++ departures st.peers scheduler.peers clock }

def adoptZone (zone : String) (st : AgentState) : AgentState :=
  if zone = st.source.zone then st
  else
    { st with
      core := { st.core with scheduler := st.core.scheduler.setSourceZone zone }
      books := { st.books with
        metrics := st.metrics.retireSourceZone st.source.nodeName st.source.zone } }

def sweepDepartedPeers (now : Int) (st : AgentState) : AgentState :=
  { st with books := st.books.sweepDepartedPeers now, lastSweep := now }

end AgentState

/-- The actions that leave the list and the zone alone. -/
def Action.probing : Action → Bool
  | .replacePeers _ | .adoptZone _ => false
  | .startRound _ _ | .probeDone .. | .probeDropped _ _ | .traceDone .. | .localRound .. => true

inductive Event where
  /-- `clock` is the time read for each departing node, `now` that of the sweep after it. -/
  | applyPeers (next : List Target) (enabled : List CheckType) (clock : String → Int) (now : Int)
  | adoptZone (zone : String)
  | sweep (now : Int)
  /-- A step of the scheduler; the handler records what it is handed. -/
  | probing (a : Action)

def AgentState.step (st : AgentState) : Event → Option AgentState
  | .applyPeers next enabled clock now => some (st.applyPeers next enabled clock now)
  | .adoptZone zone => some (st.adoptZone zone)
  | .sweep now => some (st.sweepDepartedPeers now)
  | .probing a =>
    if a.probing then
      (Agent.step st.core a).map fun core =>
        let metrics := (core.handed.drop st.core.handed.length).foldl record st.metrics
        { st with core, books := { st.books with metrics } }
    else none

end Kconmon.Agent
