import Kconmon.Console.Hub

/-!
# The browser's websocket client, and its feed from a hub

One socket carries every topic the page has a handler for. The client keeps, for each topic, the
highest sequence number it has seen, and asks for what follows it when it subscribes again on a
new socket. `Feed` puts one client in front of one hub: the connection can drop at any moment,
and what was queued or still to be handed over is lost with it.
-/
namespace Kconmon.Console.Ws
open Lib

def isSnapshotTopic (topic : String) : Bool :=
  topic = topicTopology || "matrix:".toList.isPrefixOf topic.toList

/-- A subscribe. A cursor of 0 and an empty epoch stand for fields that are not sent. -/
structure ClientMessage where
  topic : String
  lastSeq : Nat
  epoch : String
  deriving DecidableEq

structure WsClient where
  /-- The topics with a handler, the keys of a map. -/
  handlers : List String
  distinct : handlers.Nodup
  resumeSeq : GoMap String Nat := ∅
  epoch : String := ""
  deliveredSeq : GoMap String Nat := ∅
  deriving DecidableEq

def WsClient.lastSeqFor (ws : WsClient) (topic : String) : Nat := (ws.resumeSeq.lookup topic).getD 0

/-- A frame of a new epoch makes every cursor meaningless. -/
def WsClient.adoptEpoch (ws : WsClient) (epoch : String) : WsClient :=
  if epoch ≠ "" ∧ epoch ≠ ws.epoch then { ws with epoch, resumeSeq := ∅, deliveredSeq := ∅ } else ws

/-- The client after a frame, and whether the handlers of its topic were called with it. -/
def WsClient.dispatch (ws : WsClient) (env : Envelope) : WsClient × Bool :=
  if env.topic ∉ ws.handlers then (ws, false)
  else if env.type = "error" then (ws, true)
  else
    let ws := ws.adoptEpoch env.epoch
    let delivered := (ws.deliveredSeq.lookup env.topic).getD 0
    if isSnapshotTopic env.topic ∧ env.seq ≤ delivered then (ws, false)
    else
      ({ ws with
          deliveredSeq := ws.deliveredSeq.insert env.topic (max delivered env.seq)
          resumeSeq := ws.resumeSeq.insert env.topic (max (ws.lastSeqFor env.topic) env.seq) },
        true)

def WsClient.sendSubscribe (ws : WsClient) (topic : String) : ClientMessage :=
  let lastSeq := if isSnapshotTopic topic then 0 else ws.lastSeqFor topic
  if lastSeq = 0 then { topic, lastSeq := 0, epoch := "" }
  else { topic, lastSeq, epoch := ws.epoch }

/-- Staleness of snapshots is judged within one connection. -/
def WsClient.connect (ws : WsClient) : WsClient := { ws with deliveredSeq := ∅ }

/-! ## One client and one hub -/

structure Feed where
  hub : State
  ws : WsClient
  /-- The hub's end of the socket, while it is up. -/
  conn : Option Nat := none
  /-- Subscribes sent on this socket that the hub has yet to handle. -/
  requests : List ClientMessage := []
  /-- What the handlers were called with, oldest first. -/
  dispatched : List Envelope := []
  /-- How many frames the hub had numbered when the live topic was first subscribed. -/
  first : Option Nat := none

def Feed.start (epoch : String) (handlers : List String) (distinct : handlers.Nodup) : Feed :=
  { hub := initial epoch, ws := { handlers, distinct } }

inductive Feed.Action where
  | broadcast (topic type data : String)
  | handOver (i : Nat)
  /-- The oldest frame of the queue reaches the client and is dispatched. -/
  | deliver
  | drop
  | reconnect
  /-- The hub handles the next subscribe. -/
  | request
  deriving DecidableEq

/-- A client the hub has dropped is one whose socket closes. -/
def Feed.notice (st : Feed) : Feed :=
  match st.conn with
  | none => st
  | some c =>
    if (st.hub.hub.clients.lookup c).isSome then st
    else { st with conn := none, requests := [] }

/-- A frame arrives on the socket. -/
def Feed.receive (st : Feed) (env : Envelope) : Feed :=
  { st with
    ws := (st.ws.dispatch env).1
    dispatched := if (st.ws.dispatch env).2 then st.dispatched ++ [env] else st.dispatched }

def Feed.step (st : Feed) : Feed.Action → Option Feed
  | .broadcast topic type data => do
      let hub ← Ws.step st.hub (.broadcast topic type data)
      return { st with hub }
  | .handOver i => do
      let hub ← Ws.step st.hub (.handOver i)
      return ({ st with hub }).notice
  | .deliver => do
      let c ← st.conn
      let cl ← st.hub.hub.clients.lookup c
      let env ← cl.send.queue.head?
      let hub ← Ws.step st.hub (.write c)
      return ({ st with hub }).receive env
  | .drop => do
      let c ← st.conn
      let hub ← Ws.step st.hub (.unregister c)
      return ({ st with hub }).notice
  | .reconnect =>
    if st.conn.isSome then none
    else do
      let hub ← Ws.step st.hub .register
      return { st with hub
                       ws := st.ws.connect
                       conn := some st.hub.next
                       requests := st.ws.handlers.map st.ws.sendSubscribe }
  | .request =>
    match st.requests with
    | [] => none
    | r :: requests => do
      let c ← st.conn
      let hub ← Ws.step st.hub (.subscribe c r.topic r.lastSeq r.epoch)
      let first := if r.topic = topicLive then st.first.or (some st.hub.frames.length) else st.first
      return { st with hub, requests, first }

theorem Feed.step_deliver {st st' : Feed} (taken : st.step .deliver = some st') :
    ∃ c cl env queue hub, st.conn = some c ∧ st.hub.hub.clients.lookup c = some cl ∧
      cl.send.queue = env :: queue ∧ Ws.step st.hub (.write c) = some hub ∧
      hub.frames = st.hub.frames ∧
      hub.hub.clients.lookup c = some { cl with send := ⟨queue, cl.send.sent ++ [env]⟩ } ∧
      st' = ({ st with hub } : Feed).receive env := by
  simp only [step, Option.bind_eq_bind, Option.bind_eq_some_iff] at taken
  obtain ⟨c, up, cl, held, env, head, hub, moved, done⟩ := taken
  obtain ⟨queue, waiting⟩ := List.head?_eq_some_iff.mp head
  obtain ⟨cl₁, send, held₁, read, rfl⟩ := step_write moved
  cases held.symm.trans held₁
  obtain rfl : ⟨queue, cl.send.sent ++ [env]⟩ = send := by
    simpa [Outbox.receive, waiting] using read
  exact ⟨c, cl, env, queue, _, up, held, waiting, moved, rfl, Hub.lookup_setClient_self _ _ _,
    (Option.some.inj done).symm⟩

/-- Frames of the live topic that were broadcast after its first subscription. -/
def Feed.expected (st : Feed) : List Envelope :=
  match st.first with
  | none => []
  | some n => (st.hub.frames.drop n).filter (·.topic = topicLive)

def Feed.missing (st : Feed) : List Envelope := st.expected.filter (· ∉ st.dispatched)

/-- Frames of the live topic on their way to the client. -/
def Feed.inFlight (st : Feed) : List Envelope :=
  match st.conn.bind fun c => (st.hub.hub.clients.lookup c).map (c, ·) with
  | none => []
  | some (c, cl) => cl.send.queue.filter (·.topic = topicLive) ++ st.hub.owed c topicLive

/-- Connected, every subscribe handled and nothing on its way. -/
def Feed.settled (st : Feed) : Bool := st.conn.isSome && st.requests.isEmpty && st.inFlight.isEmpty

/-- When the live topic is subscribed, its ring still holds every frame the client misses. -/
def Feed.covered (st : Feed) : Feed.Action → Bool
  | .request =>
    match st.requests with
    | [] => true
    | r :: _ => r.topic ≠ topicLive || st.missing.all (· ∈ st.hub.hub.ring topicLive)
  | _ => true

/-- Whether an action ends the connection. -/
def Feed.cutsOff (st : Feed) : Feed.Action → Bool
  | .drop => true
  | .handOver i =>
    match st.hub.outstanding[i]? with
    | none => false
    | some o => !o.replay &&
        ((st.hub.hub.clients.lookup o.client).any fun cl => cl.send.full sendBuffer)
  | _ => false

/-- The connection ends only while no frame still on its way is at or below the client's cursor,
as when frames reach the client in the order of their numbers. -/
def Feed.inOrder (st : Feed) (a : Feed.Action) : Bool :=
  !st.cutsOff a || st.inFlight.all fun env => st.ws.lastSeqFor topicLive < env.seq

end Kconmon.Console.Ws
