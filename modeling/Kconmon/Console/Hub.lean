import Kconmon.Lib.GoMap
import Kconmon.Lib.Outbox
import Kconmon.Lib.Ring
import Kconmon.Lib.Runs

/-!
# The websocket hub

A hub numbers the frames of each topic, keeps the newest of them in a ring, and fans them out
to the clients subscribed at that moment. `broadcast` and `subscribe` each run under the hub's
lock; the frames they owe to clients are handed over after it is released, one by one and in
any order relative to each other. `State.outstanding` are the hand-overs still to be made and
`State.frames` is every frame ever numbered, which the hub itself forgets.
-/
namespace Kconmon.Console.Ws
open Lib

structure Envelope where
  topic : String
  type : String
  seq : Nat
  epoch : String
  data : String
  deriving DecidableEq

def topicLive : String := "live"
def topicTopology : String := "topology"
def runTopicPrefix : String := "run:"

def isRunTopic (topic : String) : Bool := runTopicPrefix.toList.isPrefixOf topic.toList

def sendBuffer : Nat := 256
def liveRingSize : Nat := 200
def snapshotRingSize : Nat := 1
def runRingSize : Nat := 64

def ringSize (topic : String) : Nat :=
  if topic = topicLive then liveRingSize
  else if isRunTopic topic then runRingSize
  else snapshotRingSize

/-- One connection: its topics, its queue, and what the write pump took from the queue. -/
structure Client where
  topics : List String := []
  send : Outbox Envelope := {}
  deriving DecidableEq

structure Hub where
  epoch : String
  clients : GoMap Nat Client := ∅
  seq : GoMap String Nat := ∅
  rings : GoMap String (List Envelope) := ∅
  /-- The run topics that are open. -/
  ephemeral : List String := []
  deriving DecidableEq

def Hub.seqOf (h : Hub) (topic : String) : Nat := (h.seq.lookup topic).getD 0
def Hub.ring (h : Hub) (topic : String) : List Envelope := (h.rings.lookup topic).getD []

def Hub.appendRing (h : Hub) (env : Envelope) : Hub :=
  let ring := Ring.push (ringSize env.topic) (h.ring env.topic) env
  { h with rings := h.rings.insert env.topic ring }

/-- The clients a frame of `topic` is meant for. -/
def Hub.targets (h : Hub) (topic : String) : List Nat :=
  (h.clients.entries.filter fun e => topic ∈ e.2.topics).map Sigma.fst

/-- The locked part: the frame and its targets, `none` for a run topic that is not open. -/
def Hub.broadcast (h : Hub) (topic type data : String) : Option (Hub × Envelope × List Nat) :=
  if isRunTopic topic ∧ topic ∉ h.ephemeral then none
  else
    let seq := h.seqOf topic + 1
    let env : Envelope := { topic, type, seq, epoch := h.epoch, data }
    some (({ h with seq := h.seq.insert topic seq }).appendRing env, env, h.targets topic)

/-- A cursor of another hub is none. -/
def Hub.honoured (h : Hub) (lastSeq : Nat) (epoch : String) : Nat :=
  if epoch ≠ "" ∧ epoch ≠ h.epoch then 0 else lastSeq

def Hub.replay (h : Hub) (topic : String) (lastSeq : Nat) (epoch : String) : List Envelope :=
  (h.ring topic).filter fun env => h.honoured lastSeq epoch < env.seq

def Hub.setClient (h : Hub) (c : Nat) (cl : Client) : Hub :=
  { h with clients := h.clients.insert c cl }

theorem Hub.lookup_setClient_self (h : Hub) (c : Nat) (cl : Client) :
    (h.setClient c cl).clients.lookup c = some cl := AList.lookup_insert _

/-- The locked part: the client is registered for the topic and owed the frames it missed. -/
def Hub.subscribe (h : Hub) (c : Nat) (cl : Client) (topic : String) (lastSeq : Nat)
    (epoch : String) : Hub × List Envelope :=
  (h.setClient c { cl with topics := cl.topics.insert topic }, h.replay topic lastSeq epoch)

def Hub.unsubscribe (h : Hub) (c : Nat) (cl : Client) (topic : String) : Hub :=
  h.setClient c { cl with topics := cl.topics.filter (· ≠ topic) }

def Hub.unregister (h : Hub) (c : Nat) : Hub := { h with clients := h.clients.erase c }

/-! ## Runs -/

/-- A frame owed to a client, by a broadcast or by the replay its subscribe asked for. -/
structure Handover where
  client : Nat
  env : Envelope
  replay : Bool
  deriving DecidableEq

structure State where
  hub : Hub
  outstanding : List Handover := []
  frames : List Envelope := []
  /-- The next connection. -/
  next : Nat := 0
  deriving DecidableEq

def initial (epoch : String) : State := { hub := { epoch } }

/-- Hands one frame over. A full queue makes a broadcast drop the client and a replay wait; a
client that is gone gets nothing. -/
def Hub.deliver (h : Hub) (o : Handover) : Option Hub :=
  match h.clients.lookup o.client with
  | none => some h
  | some cl =>
    match cl.send.offer sendBuffer o.env with
    | some send => some (h.setClient o.client { cl with send })
    | none => if o.replay then none else some (h.unregister o.client)

inductive Action where
  | register
  | openTopic (topic : String)
  | broadcast (topic type data : String)
  | subscribe (c : Nat) (topic : String) (lastSeq : Nat) (epoch : String)
  | unsubscribe (c : Nat) (topic : String)
  /-- The hand-over at this place is made. -/
  | handOver (i : Nat)
  /-- The write pump takes the oldest frame of the queue. -/
  | write (c : Nat)
  /-- The connection ends, or a replay waited too long for it. -/
  | unregister (c : Nat)
  deriving DecidableEq

def step (st : State) : Action → Option State
  | .register => some
      { st with hub := st.hub.setClient st.next {}, next := st.next + 1 }
  | .openTopic topic => some
      { st with hub := { st.hub with ephemeral := st.hub.ephemeral.insert topic } }
  | .broadcast topic type data =>
    match st.hub.broadcast topic type data with
    | none => some st
    | some (hub, env, targets) => some
        { st with hub
                  outstanding := st.outstanding ++ targets.map fun c => ⟨c, env, false⟩
                  frames := st.frames ++ [env] }
  | .subscribe c topic lastSeq epoch => (st.hub.clients.lookup c).map fun cl =>
      let (hub, replay) := st.hub.subscribe c cl topic lastSeq epoch
      { st with hub, outstanding := st.outstanding ++ replay.map fun env => ⟨c, env, true⟩ }
  | .unsubscribe c topic => (st.hub.clients.lookup c).map fun cl =>
      { st with hub := st.hub.unsubscribe c cl topic }
  | .handOver i => do
      let o ← st.outstanding[i]?
      let hub ← st.hub.deliver o
      return { st with hub, outstanding := st.outstanding.eraseIdx i }
  | .write c => do
      let cl ← st.hub.clients.lookup c
      let send ← cl.send.receive
      return { st with hub := st.hub.setClient c { cl with send } }
  | .unregister c => some { st with hub := st.hub.unregister c }

/-! ## Reading a state -/

/-- Every frame of a topic, oldest first. -/
def State.history (st : State) (topic : String) : List Envelope :=
  st.frames.filter (·.topic = topic)

def Client.handed (cl : Client) (topic : String) : List Envelope :=
  cl.send.all.filter (·.topic = topic)

def State.owed (st : State) (c : Nat) (topic : String) : List Envelope :=
  (st.outstanding.filter fun o => o.client = c ∧ o.env.topic = topic).map Handover.env

theorem step_handOver {st st' : State} {i : Nat} (taken : step st (.handOver i) = some st') :
    ∃ o hub, st.outstanding[i]? = some o ∧ st.hub.deliver o = some hub ∧
      st' = { st with hub, outstanding := st.outstanding.eraseIdx i } := by
  simp only [step, Option.bind_eq_bind, Option.bind_eq_some_iff] at taken
  obtain ⟨o, due, hub, made, done⟩ := taken
  exact ⟨o, hub, due, made, (Option.some.inj done).symm⟩

theorem step_write {st st' : State} {c : Nat} (taken : step st (.write c) = some st') :
    ∃ cl send, st.hub.clients.lookup c = some cl ∧ cl.send.receive = some send ∧
      st' = { st with hub := st.hub.setClient c { cl with send } } := by
  simp only [step, Option.bind_eq_bind, Option.bind_eq_some_iff] at taken
  obtain ⟨cl, held, send, read, done⟩ := taken
  exact ⟨cl, send, held, read, (Option.some.inj done).symm⟩

theorem step_subscribe {st st' : State} {c : Nat} {topic : String} {lastSeq : Nat}
    {epoch : String} (taken : step st (.subscribe c topic lastSeq epoch) = some st') :
    ∃ cl, st.hub.clients.lookup c = some cl ∧
      st' = { st with
        hub := st.hub.setClient c { cl with topics := cl.topics.insert topic }
        outstanding := st.outstanding ++
          (st.hub.replay topic lastSeq epoch).map fun env => ⟨c, env, true⟩ } := by
  obtain ⟨cl, held, done⟩ := Option.map_eq_some_iff.mp taken
  exact ⟨cl, held, done.symm⟩

end Kconmon.Console.Ws
