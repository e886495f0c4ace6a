import Kconmon.Console.HubDelivery
import Kconmon.Console.WsClient

/-!
# Resuming the live feed

Frames are handed over outside the hub's lock, so a frame can reach the client ahead of an older
one. The client's cursor is the highest number it saw. If the connection ends while an older frame
is still on its way, the cursor stands above that frame and the next subscribe does not ask for it.

While no connection ends like that, the feed loses nothing: at every moment a missing frame is on
its way, or lies above the cursor and so in what the next subscribe replays.
-/
namespace Kconmon.Console.Ws
open Lib

/-! ## Numbers of old and of new frames -/

variable {f : Envelope} {topic : String}

theorem Inv.seq_le {st : State} (inv : Inv st) (old : f ∈ st.history topic) :
    f.seq ≤ st.hub.seqOf topic := by
  have numbered : f.seq ∈ List.range' 1 (st.history topic).length :=
    inv.numbered topic ▸ List.mem_map_of_mem old
  rw [List.mem_range'_1] at numbered
  rw [inv.counted]
  omega

theorem Inv.seqOf_lt_of_since {st st' : State} (inv : Inv st) (inv' : Inv st')
    (frames : st.frames <+: st'.frames) (new : f ∈ st.since st' topic) :
    st.hub.seqOf topic < f.seq := by
  have numbered := inv'.numbered topic
  rw [history_eq frames, List.map_append, List.length_append, List.range'_append_1.symm,
    inv.numbered topic] at numbered
  have tail := List.append_cancel_left numbered
  have mem : f.seq ∈ List.range' (1 + (st.history topic).length) (st.since st' topic).length :=
    tail ▸ List.mem_map_of_mem new
  rw [List.mem_range'_1] at mem
  rw [inv.counted]
  omega

theorem Inv.seqOf_mono {st st' : State} (inv : Inv st) (inv' : Inv st')
    (frames : st.frames <+: st'.frames) (topic : String) :
    st.hub.seqOf topic ≤ st'.hub.seqOf topic := by
  rw [inv.counted, inv'.counted, history_eq frames, List.length_append]
  omega

/-! ## The invariant -/

namespace Feed

/-- No missing frame is at or below the client's cursor. -/
def Behind (st : Feed) : Prop := ∀ f ∈ st.missing, st.ws.lastSeqFor topicLive < f.seq

/-- Connected, with the subscribe to the live topic on its way. -/
structure Waiting (st : Feed) (c : Nat) (cl : Client) : Prop where
  unwanted : topicLive ∉ cl.topics
  nothing : st.hub.given c cl topicLive = []
  asked : ∃ r ∈ st.requests, r.topic = topicLive
  distinct : (st.requests.map ClientMessage.topic).Nodup
  epoch : ∀ r ∈ st.requests, r.epoch = "" ∨ r.epoch = st.hub.hub.epoch
  bounded : ∀ r ∈ st.requests, r.topic = topicLive → r.lastSeq ≤ st.hub.hub.seqOf topicLive
  above : ∀ r ∈ st.requests, r.topic = topicLive → ∀ f ∈ st.missing, r.lastSeq < f.seq
  behind : st.Behind

/-- Connected and subscribed: every missing frame was handed over or is owed. -/
structure Served (st : Feed) (c : Nat) (cl : Client) : Prop where
  wanted : topicLive ∈ cl.topics
  handled : ∀ r ∈ st.requests, r.topic ≠ topicLive
  owed : ∀ f ∈ st.missing, f ∈ st.hub.given c cl topicLive
  seen : ∀ env ∈ cl.send.sent, env.topic = topicLive → env ∈ st.dispatched

def Phase (st : Feed) : Prop :=
  match st.conn with
  | none => st.Behind
  | some c => ∃ cl, st.hub.hub.clients.lookup c = some cl ∧ (st.Waiting c cl ∨ st.Served c cl)

structure Inv (st : Feed) : Prop where
  hub : Ws.Inv st.hub
  handles : topicLive ∈ st.ws.handlers
  epoch : st.ws.epoch = "" ∨ st.ws.epoch = st.hub.hub.epoch
  bounded : st.ws.lastSeqFor topicLive ≤ st.hub.hub.seqOf topicLive
  first : ∀ n, st.first = some n → n ≤ st.hub.frames.length
  phase : st.Phase

theorem phase_none {st : Feed} (down : st.conn = none) : st.Phase ↔ st.Behind := by
  simp [Phase, down]

variable {c : Nat}

theorem phase_some (st : Feed) (up : st.conn = some c) : st.Phase ↔
    ∃ cl, st.hub.hub.clients.lookup c = some cl ∧ (st.Waiting c cl ∨ st.Served c cl) := by
  simp [Phase, up]

theorem mem_missing {st : Feed} : f ∈ st.missing ↔ f ∈ st.expected ∧ f ∉ st.dispatched := by
  simp [missing]

theorem mem_expected {st : Feed} :
    f ∈ st.expected ↔ ∃ n, st.first = some n ∧ f ∈ st.hub.frames.drop n ∧ f.topic = topicLive := by
  unfold expected
  split
  · simp [*]
  · simp [*]

/-- A frame the hub numbers is the only one that can come to be missing by a step of the hub. -/
theorem missing_hub {st : Feed} {hub' : State}
    (first : ∀ n, st.first = some n → n ≤ st.hub.frames.length)
    (frames : st.hub.frames <+: hub'.frames)
    (missing : f ∈ ({ st with hub := hub' } : Feed).missing) :
    f ∈ st.missing ∨ f ∈ st.hub.since hub' topicLive := by
  obtain ⟨expected, unseen⟩ := mem_missing.mp missing
  obtain ⟨n, start, after, live⟩ := mem_expected.mp expected
  obtain ⟨more, grown⟩ := frames
  have within := first n start
  change f ∈ hub'.frames.drop n at after
  rw [← grown, List.drop_append_of_le_length within, List.mem_append] at after
  rcases after with old | new
  · exact .inl (mem_missing.mpr ⟨mem_expected.mpr ⟨n, start, old, live⟩, unseen⟩)
  · refine .inr (List.mem_filter.mpr ⟨?_, by simpa using live⟩)
    simpa [← grown] using new

/-! ## Steps of the hub that leave the connection up -/

section HubStep

variable {st : Feed} {a : Ws.Action} {hub' : State}

theorem Behind.hub (behind : st.Behind) (inv : Inv st) (taken : Ws.step st.hub a = some hub') :
    ({ st with hub := hub' } : Feed).Behind := by
  intro f missing
  have frames := (grows_step taken).1
  rcases missing_hub inv.first frames missing with old | new
  · exact behind f old
  · exact Nat.lt_of_le_of_lt inv.bounded (inv.hub.seqOf_lt_of_since (inv.hub.step taken) frames new)

theorem Waiting.hub {cl cl' : Client} (waiting : st.Waiting c cl) (inv : Inv st)
    (held : st.hub.hub.clients.lookup c = some cl) (taken : Ws.step st.hub a = some hub')
    (leaves : a.leaves c topicLive) (held' : hub'.hub.clients.lookup c = some cl') :
    ({ st with hub := hub' } : Feed).Waiting c cl' := by
  obtain ⟨frames, epoch, -⟩ := grows_step taken
  have inv' := inv.hub.step taken
  obtain ⟨cl₁, held₁, topics, given⟩ :=
    Keeps.step inv.hub taken (inv.hub.registered held) leaves cl' held'
  cases held.symm.trans held₁
  refine ⟨mt topics.mp waiting.unwanted, ?_, waiting.asked, waiting.distinct, ?_, ?_, ?_,
    waiting.behind.hub inv taken⟩
  · simpa [waiting.unwanted, waiting.nothing] using given
  · simpa only [epoch] using waiting.epoch
  · exact fun r asked live =>
      Nat.le_trans (waiting.bounded r asked live) (inv.hub.seqOf_mono inv' frames _)
  · intro r asked live f missing
    rcases missing_hub inv.first frames missing with old | new
    · exact waiting.above r asked live f old
    · exact Nat.lt_of_le_of_lt (waiting.bounded r asked live)
        (inv.hub.seqOf_lt_of_since inv' frames new)

theorem Served.hub {cl cl' : Client} (served : st.Served c cl) (inv : Inv st)
    (held : st.hub.hub.clients.lookup c = some cl) (taken : Ws.step st.hub a = some hub')
    (leaves : a.leaves c topicLive) (held' : hub'.hub.clients.lookup c = some cl')
    (sent : cl'.send.sent = cl.send.sent) : ({ st with hub := hub' } : Feed).Served c cl' := by
  have frames := (grows_step taken).1
  obtain ⟨cl₁, held₁, topics, given⟩ :=
    Keeps.step inv.hub taken (inv.hub.registered held) leaves cl' held'
  cases held.symm.trans held₁
  refine ⟨topics.mpr served.wanted, served.handled, fun f missing => ?_, by
    simpa only [sent] using served.seen⟩
  rw [if_pos served.wanted] at given
  refine given.mem_iff.mpr (List.mem_append.mpr ?_)
  exact (missing_hub inv.first frames missing).imp_left (served.owed f)

theorem Inv.hub_step (inv : Inv st) (taken : Ws.step st.hub a = some hub')
    (leaves : ∀ c, st.conn = some c → a.leaves c topicLive)
    (alive : ∀ c cl, st.conn = some c → st.hub.hub.clients.lookup c = some cl →
      ∃ cl', hub'.hub.clients.lookup c = some cl' ∧ cl'.send.sent = cl.send.sent) :
    Inv { st with hub := hub' } := by
  obtain ⟨frames, epoch, -⟩ := grows_step taken
  have inv' := inv.hub.step taken
  refine ⟨inv', inv.handles, by simpa only [epoch] using inv.epoch,
    Nat.le_trans inv.bounded (inv.hub.seqOf_mono inv' frames _),
    fun n start => Nat.le_trans (inv.first n start) frames.length_le, ?_⟩
  cases conn : st.conn with
  | none =>
    have behind := (phase_none conn).mp inv.phase
    exact (phase_none rfl).mpr (behind.hub inv taken)
  | some c =>
    obtain ⟨cl, held, phase⟩ := (phase_some _ conn).mp inv.phase
    obtain ⟨cl', held', sent⟩ := alive c cl conn held
    refine (phase_some _ rfl).mpr ⟨cl', held', phase.imp (fun waiting => ?_) fun served => ?_⟩
    · exact conn ▸ waiting.hub inv held taken (leaves c conn) held'
    · exact conn ▸ served.hub inv held taken (leaves c conn) held' sent

end HubStep

variable {st' : Feed}

theorem Inv.broadcast {st : Feed} (inv : Inv st) {type data : String}
    (taken : st.step (.broadcast topic type data) = some st') : Inv st' := by
  obtain ⟨hub, moved, done⟩ := Option.bind_eq_some_iff.mp taken
  cases done
  refine inv.hub_step moved (fun _ _ => rfl) fun c cl _ held => ⟨cl, ?_, rfl⟩
  simp only [Ws.step] at moved
  split at moved
  · cases moved
    exact held
  · rename_i sent
    cases moved
    obtain ⟨-, -, -, -, clients, -⟩ := broadcast_eq sent
    exact clients ▸ held

/-! ## Losing the connection -/

variable {cl : Client}

theorem inFlight_eq {st : Feed} (up : st.conn = some c)
    (held : st.hub.hub.clients.lookup c = some cl) :
    st.inFlight = cl.send.queue.filter (·.topic = topicLive) ++ st.hub.owed c topicLive := by
  simp [inFlight, up, held]

/-- What was given and not seen is on its way. -/
theorem Served.mem_inFlight {st : Feed} (served : st.Served c cl) (up : st.conn = some c)
    (held : st.hub.hub.clients.lookup c = some cl) (missing : f ∈ st.missing) :
    f ∈ st.inFlight := by
  rw [inFlight_eq up held]
  rcases List.mem_append.mp (served.owed f missing) with handed | owed
  · obtain ⟨all, live⟩ := List.mem_filter.mp handed
    rcases List.mem_append.mp all with sent | queued
    · exact absurd (served.seen f sent (of_decide_eq_true live)) (mem_missing.mp missing).2
    · exact List.mem_append_left _ (List.mem_filter.mpr ⟨queued, live⟩)
  · exact List.mem_append_right _ owed

theorem Inv.behind {st : Feed} (inv : Inv st)
    (ordered : ∀ f ∈ st.inFlight, st.ws.lastSeqFor topicLive < f.seq) : st.Behind := by
  cases conn : st.conn with
  | none => exact (phase_none conn).mp inv.phase
  | some c =>
    obtain ⟨cl, held, waiting | served⟩ := (phase_some _ conn).mp inv.phase
    · exact waiting.behind
    · exact fun f missing => ordered f (served.mem_inFlight conn held missing)

theorem Inv.lost {st : Feed} {a : Ws.Action} {hub' : State} (inv : Inv st)
    (ordered : ∀ f ∈ st.inFlight, st.ws.lastSeqFor topicLive < f.seq)
    (taken : Ws.step st.hub a = some hub') :
    Inv { st with hub := hub', conn := none, requests := [] } := by
  obtain ⟨frames, epoch, -⟩ := grows_step taken
  have inv' := inv.hub.step taken
  exact ⟨inv', inv.handles, by simpa only [epoch] using inv.epoch,
    Nat.le_trans inv.bounded (inv.hub.seqOf_mono inv' frames _),
    fun n start => Nat.le_trans (inv.first n start) frames.length_le,
    (inv.behind ordered).hub inv taken⟩

theorem ordered_of_inOrder {st : Feed} {a : Feed.Action} (inOrder : st.inOrder a = true)
    (cut : st.cutsOff a = true) : ∀ f ∈ st.inFlight, st.ws.lastSeqFor topicLive < f.seq := by
  simpa [Feed.inOrder, cut] using inOrder

theorem Inv.drop {st : Feed} (inv : Inv st) (inOrder : st.inOrder .drop = true)
    (taken : st.step .drop = some st') : Inv st' := by
  obtain ⟨c, up, taken⟩ := Option.bind_eq_some_iff.mp taken
  obtain ⟨hub, moved, done⟩ := Option.bind_eq_some_iff.mp taken
  have lost := inv.lost (ordered_of_inOrder inOrder rfl) moved
  cases moved
  cases done
  simpa [notice, up, Hub.unregister] using lost

/-- A hand-over loses the client only when it finds the queue full. -/
theorem deliver_lost {h h' : Hub} {o : Handover} (made : h.deliver o = some h')
    (held : h.clients.lookup c = some cl) (gone : h'.clients.lookup c = none) :
    o.replay = false ∧ o.client = c ∧ cl.send.full sendBuffer = true := by
  unfold Hub.deliver at made
  split at made
  · cases made
    rw [held] at gone
    cases gone
  · rename_i cl' held'
    split at made
    · rename_i send _
      cases made
      have known : (h.clients.lookup c).isSome := by rw [held]; rfl
      have kept : ((h.setClient o.client { cl' with send }).clients.lookup c).isSome :=
        isSome_setClient _ known
      rw [gone] at kept
      cases kept
    · rename_i full
      split at made <;> cases made
      rename_i broadcast
      have same : c = o.client := by
        by_contra other
        simp [Hub.unregister, other, held] at gone
      subst same
      cases held'.symm.trans held
      exact ⟨by simpa using broadcast, rfl, Outbox.offer_eq_none.mp full⟩

theorem Inv.handOver {st : Feed} (inv : Inv st) {i : Nat}
    (inOrder : st.inOrder (.handOver i) = true) (taken : st.step (.handOver i) = some st') :
    Inv st' := by
  obtain ⟨hub, moved, done⟩ := Option.bind_eq_some_iff.mp taken
  cases done
  obtain ⟨o, h', due, made, hub_eq⟩ := step_handOver moved
  obtain ⟨-, -, -, clients⟩ := deliver_eq made
  -- While the client is there, the hand-over only adds to its queue.
  have alive : ∀ c cl cl', st.hub.hub.clients.lookup c = some cl →
      hub.hub.clients.lookup c = some cl' → cl'.send.sent = cl.send.sent := by
    intro c cl cl' held held'
    rw [hub_eq] at held'
    obtain ⟨cl₁, held₁, -, sent, -⟩ := clients held'
    rw [sent, Option.some.inj (held.symm.trans held₁)]
  unfold notice
  cases up : st.conn with
  | none =>
    dsimp only
    exact up ▸ inv.hub_step moved (fun _ _ => rfl) fun c cl conn => by simp [up] at conn
  | some c =>
    dsimp only
    obtain ⟨cl, held, -⟩ := (phase_some _ up).mp inv.phase
    cases held' : hub.hub.clients.lookup c with
    | some cl' =>
      refine up ▸ inv.hub_step moved (fun _ _ => rfl) fun d cl₁ conn held₁ => ?_
      cases up.symm.trans conn
      exact ⟨cl', held', alive c cl₁ cl' held₁ held'⟩
    | none =>
      rw [hub_eq] at held'
      obtain ⟨replay, client, full⟩ := deliver_lost made held held'
      subst client
      have cut : st.cutsOff (.handOver i) = true := by
        simp [cutsOff, due, replay, held, full]
      exact inv.lost (ordered_of_inOrder inOrder cut) moved

/-! ## Connecting and subscribing -/

theorem lastSeq_sendSubscribe (ws : WsClient) :
    (ws.sendSubscribe topicLive).lastSeq = ws.lastSeqFor topicLive := by
  have live : isSnapshotTopic topicLive = false := by decide
  simp only [WsClient.sendSubscribe, live, Bool.false_eq_true, if_false]
  split <;> simp [*]

theorem topic_sendSubscribe (ws : WsClient) (topic : String) :
    (ws.sendSubscribe topic).topic = topic := by
  grind [WsClient.sendSubscribe]

theorem epoch_sendSubscribe (ws : WsClient) (topic : String) :
    (ws.sendSubscribe topic).epoch = "" ∨ (ws.sendSubscribe topic).epoch = ws.epoch := by
  grind [WsClient.sendSubscribe]

theorem Inv.reconnect {st : Feed} (inv : Inv st) (taken : st.step .reconnect = some st') :
    Inv st' := by
  simp only [Feed.step] at taken
  split at taken
  · cases taken
  · rename_i down
    have down : st.conn = none := by simpa using down
    obtain ⟨hub, moved, done⟩ := Option.bind_eq_some_iff.mp taken
    have behind := (phase_none down).mp inv.phase
    have inv' := inv.hub.step moved
    have fresh : Unsubscribed st.hub.next topicLive st.hub := by
      intro cl held
      exact absurd (inv.hub.registered held) (Nat.lt_irrefl _)
    have unsubscribed := fresh.step inv.hub rfl moved
    cases moved
    cases done
    refine ⟨inv', inv.handles, inv.epoch, inv.bounded, inv.first, (phase_some _ rfl).mpr ?_⟩
    have held := st.hub.hub.lookup_setClient_self st.hub.next {}
    obtain ⟨unwanted, nothing⟩ := unsubscribed {} held
    have asked : ∀ r ∈ st.ws.handlers.map st.ws.sendSubscribe,
        ∃ topic ∈ st.ws.handlers, st.ws.sendSubscribe topic = r := fun r => List.mem_map.mp
    refine ⟨{}, held, .inl ⟨unwanted, nothing, ?_, ?_, fun r sent => ?_, fun r sent live => ?_,
      fun r sent live => ?_, behind⟩⟩
    · exact ⟨_, List.mem_map_of_mem inv.handles, topic_sendSubscribe _ _⟩
    · have topics : st.ws.handlers.map (ClientMessage.topic ∘ st.ws.sendSubscribe) =
          st.ws.handlers := by
        simp [Function.comp_def, topic_sendSubscribe]
      rw [List.map_map, topics]
      exact st.ws.distinct
    · obtain ⟨topic, -, rfl⟩ := asked r sent
      rcases epoch_sendSubscribe st.ws topic with none | some
      · exact .inl none
      · exact some ▸ inv.epoch
    · obtain ⟨topic, -, rfl⟩ := asked r sent
      rw [topic_sendSubscribe] at live
      rw [live, lastSeq_sendSubscribe]
      exact inv.bounded
    · obtain ⟨topic, -, rfl⟩ := asked r sent
      rw [topic_sendSubscribe] at live
      rw [live, lastSeq_sendSubscribe]
      exact behind

/-- The subscribe to the live topic: what is missing is in the ring and above the cursor, so all
of it is replayed. -/
theorem Waiting.subscribe {st : Feed} (waiting : st.Waiting c cl) (inv : Inv st)
    (held : st.hub.hub.clients.lookup c = some cl) {r : ClientMessage} {rest : List ClientMessage}
    (next : st.requests = r :: rest) (live : r.topic = topicLive)
    (covered : ∀ f ∈ st.missing, f ∈ st.hub.hub.ring topicLive) {hub' : State}
    (moved : Ws.step st.hub (.subscribe c r.topic r.lastSeq r.epoch) = some hub') :
    ∃ cl', hub'.hub.clients.lookup c = some cl' ∧
      Served { st with hub := hub', requests := rest
                       first := st.first.or (some st.hub.frames.length) } c cl' := by
  have first : r ∈ st.requests := by simp [next]
  have unsubscribed : Unsubscribed c topicLive st.hub := by
    intro cl₁ held₁
    cases held.symm.trans held₁
    exact ⟨waiting.unwanted, waiting.nothing⟩
  rw [live] at moved
  obtain ⟨cl', held', wanted, given⟩ := given_subscribe inv.hub unsubscribed moved
  refine ⟨cl', held', wanted, fun q asked same => ?_, fun f missing => ?_, fun env sent topic => ?_⟩
  · have distinct := waiting.distinct
    rw [next, List.map_cons, List.nodup_cons] at distinct
    exact distinct.1 (live ▸ same ▸ List.mem_map_of_mem asked)
  · have old : f ∈ st.missing := by
      obtain ⟨expected, unseen⟩ := mem_missing.mp missing
      obtain ⟨n, start, after, topic⟩ := mem_expected.mp expected
      obtain ⟨_, _, rfl⟩ := step_subscribe moved
      cases before : st.first with
      | none =>
        obtain rfl : st.hub.frames.length = n := by simpa [before] using start
        simp at after
      | some m =>
        obtain rfl : m = n := by simpa [before] using start
        exact mem_missing.mpr ⟨mem_expected.mpr ⟨m, before, after, topic⟩, unseen⟩
    have honoured : st.hub.hub.honoured r.lastSeq r.epoch = r.lastSeq := by
      rcases waiting.epoch r first with none | same <;> simp [Hub.honoured, *]
    change f ∈ hub'.given c cl' topicLive
    rw [given, Hub.replay, List.mem_filter, honoured]
    exact ⟨covered f old, by simpa using waiting.above r first live f old⟩
  · obtain ⟨cl₁, held₁, rfl⟩ := step_subscribe moved
    cases held.symm.trans held₁
    have nothing := (List.append_eq_nil_iff.mp waiting.nothing).1
    obtain rfl : { cl with topics := cl.topics.insert topicLive } = cl' := by
      simpa [Hub.setClient] using held'
    have handed : env ∈ cl.handed topicLive :=
      List.mem_filter.mpr ⟨List.mem_append_left _ sent, by simpa using topic⟩
    rw [nothing] at handed
    cases handed

/-- A subscribe to another topic. -/
theorem Inv.request_other {st : Feed} (inv : Inv st) (up : st.conn = some c) {r : ClientMessage}
    {rest : List ClientMessage} (next : st.requests = r :: rest) (other : r.topic ≠ topicLive)
    {hub' : State} (moved : Ws.step st.hub (.subscribe c r.topic r.lastSeq r.epoch) = some hub') :
    Inv { st with hub := hub', requests := rest } := by
  have leaves : ∀ d, st.conn = some d →
      (Action.subscribe c r.topic r.lastSeq r.epoch).leaves d topicLive := by
    simp [Action.leaves, other]
  have kept := inv.hub_step moved leaves fun d cl conn held => by
    cases up.symm.trans conn
    obtain ⟨cl₁, held₁, rfl⟩ := step_subscribe moved
    cases held.symm.trans held₁
    exact ⟨_, Hub.lookup_setClient_self _ _ _, rfl⟩
  obtain ⟨cl, held, phase⟩ := (phase_some { st with hub := hub' } up).mp kept.phase
  refine ⟨kept.hub, kept.handles, kept.epoch, kept.bounded, kept.first,
    (phase_some { st with hub := hub', requests := rest } up).mpr ?_⟩
  have tail : ∀ q ∈ rest, q ∈ st.requests := by
    intro q asked
    simp [next, asked]
  refine ⟨cl, held, phase.imp (fun waiting => ?_) fun served => ?_⟩
  · obtain ⟨q, asked, live⟩ := waiting.asked
    have distinct := waiting.distinct
    rw [show ({ st with hub := hub' } : Feed).requests = r :: rest from next] at asked distinct
    refine ⟨waiting.unwanted, waiting.nothing, ⟨q, ?_, live⟩, distinct.of_cons,
      fun q asked => waiting.epoch q (tail q asked),
      fun q asked => waiting.bounded q (tail q asked),
      fun q asked => waiting.above q (tail q asked), waiting.behind⟩
    rcases List.mem_cons.mp asked with rfl | asked
    · exact absurd live other
    · exact asked
  · exact ⟨served.wanted, fun q asked => served.handled q (tail q asked), served.owed, served.seen⟩

theorem Inv.request {st : Feed} (inv : Inv st) (covered : st.covered .request = true)
    (taken : st.step .request = some st') : Inv st' := by
  simp only [Feed.step] at taken
  split at taken
  · cases taken
  · rename_i r rest next
    obtain ⟨c, up, taken⟩ := Option.bind_eq_some_iff.mp taken
    obtain ⟨hub, moved, done⟩ := Option.bind_eq_some_iff.mp taken
    cases done
    by_cases live : r.topic = topicLive
    · rw [if_pos live]
      obtain ⟨cl, held, waiting | served⟩ := (phase_some _ up).mp inv.phase
      · have covered : ∀ f ∈ st.missing, f ∈ st.hub.hub.ring topicLive := by
          simpa [Feed.covered, next, live] using covered
        obtain ⟨frames, epoch, -⟩ := grows_step moved
        have inv' := inv.hub.step moved
        obtain ⟨cl', held', served⟩ := waiting.subscribe inv held next live covered moved
        refine ⟨inv', inv.handles, by simpa only [epoch] using inv.epoch,
          Nat.le_trans inv.bounded (inv.hub.seqOf_mono inv' frames _), fun n start => ?_, ?_⟩
        · refine Nat.le_trans ?_ frames.length_le
          cases before : st.first with
          | none =>
            obtain rfl : st.hub.frames.length = n := by simpa [before] using start
            exact Nat.le_refl _
          | some m =>
            obtain rfl : m = n := by simpa [before] using start
            exact inv.first m before
        · unfold Phase
          rw [up]
          exact ⟨cl', held', .inr (up ▸ served)⟩
      · exact absurd live (served.handled r (by simp [next]))
    · rw [if_neg live]
      exact inv.request_other up next live moved

/-! ## Dispatching -/

theorem adoptEpoch_spec (ws : WsClient) {epoch : String} (old : ws.epoch = "" ∨ ws.epoch = epoch) :
    (ws.adoptEpoch epoch).handlers = ws.handlers ∧
      ((ws.adoptEpoch epoch).epoch = "" ∨ (ws.adoptEpoch epoch).epoch = epoch) ∧
      (ws.adoptEpoch epoch).lastSeqFor topicLive ≤ ws.lastSeqFor topicLive := by
  unfold WsClient.adoptEpoch
  split
  · exact ⟨rfl, .inr rfl, by simp [WsClient.lastSeqFor]⟩
  · exact ⟨rfl, old, Nat.le_refl _⟩

theorem lastSeqFor_set {ws ws' : WsClient} {n : Nat}
    (set : ws'.resumeSeq = ws.resumeSeq.insert topic n) (t : String) :
    ws'.lastSeqFor t = if t = topic then n else ws.lastSeqFor t := by
  rw [WsClient.lastSeqFor, set, GoMap.lookup_insert_if]
  split <;> rfl

/-- A frame of the live topic is always dispatched, and no other moves the topic's cursor up. -/
theorem dispatch_spec (ws : WsClient) (env : Envelope) (handles : topicLive ∈ ws.handlers)
    (old : ws.epoch = "" ∨ ws.epoch = env.epoch) : (ws.dispatch env).1.handlers = ws.handlers ∧
      ((ws.dispatch env).1.epoch = "" ∨ (ws.dispatch env).1.epoch = env.epoch) ∧
      (env.topic = topicLive → (ws.dispatch env).2 = true) ∧
      (ws.dispatch env).1.lastSeqFor topicLive ≤
        if env.topic = topicLive then max (ws.lastSeqFor topicLive) env.seq
        else ws.lastSeqFor topicLive := by
  have live : isSnapshotTopic topicLive = false := by decide
  obtain ⟨handlers, epoch, cursor⟩ := adoptEpoch_spec ws old
  unfold WsClient.dispatch
  generalize ws.adoptEpoch env.epoch = ws' at handlers epoch cursor
  split
  · rename_i unhandled
    have other : env.topic ≠ topicLive := fun same => unhandled (same ▸ handles)
    exact ⟨rfl, old, fun same => absurd same other, by simp [other]⟩
  · split
    · refine ⟨rfl, old, fun _ => rfl, ?_⟩
      dsimp only
      split <;> omega
    · dsimp only
      split
      · rename_i stale
        have other : env.topic ≠ topicLive := by
          intro same
          simp [same, live] at stale
        exact ⟨handlers, epoch, fun same => absurd same other, by simpa [other] using cursor⟩
      · refine ⟨handlers, epoch, fun _ => rfl, ?_⟩
        rw [lastSeqFor_set rfl]
        by_cases same : env.topic = topicLive
        · simp only [same, if_true]
          omega
        · simpa [same, Ne.symm same] using cursor

theorem mem_dispatched_receive {st : Feed} (env : Envelope) (old : f ∈ st.dispatched) :
    f ∈ (st.receive env).dispatched := by
  simp only [receive]
  split
  · exact List.mem_append_left _ old
  · exact old

theorem missing_receive {st : Feed} {env : Envelope} (missing : f ∈ (st.receive env).missing) :
    f ∈ st.missing := by
  obtain ⟨expected, unseen⟩ := mem_missing.mp missing
  exact mem_missing.mpr ⟨expected, mt (mem_dispatched_receive env) unseen⟩

theorem missing_congr {st : Feed} {hub' : State} (frames : hub'.frames = st.hub.frames) :
    ({ st with hub := hub' } : Feed).missing = st.missing := by
  simp only [missing, expected, frames]

theorem Inv.deliver {st : Feed} (inv : Inv st) (taken : st.step .deliver = some st') : Inv st' := by
  obtain ⟨c, cl, env, queue, hub, up, held, waiting, moved, frames, held', rfl⟩ :=
    step_deliver taken
  have epoch := (grows_step moved).2.1
  have inv' := inv.hub.step moved
  have seqOf : hub.hub.seqOf topicLive = st.hub.hub.seqOf topicLive := by
    rw [inv.hub.counted, inv'.counted, State.history, State.history, frames]
  -- The frame is one of the hub's, so it carries its epoch and a number it gave out.
  have queued : env ∈ cl.send.all := by simp [Outbox.all, waiting]
  have numbered := (inv.hub.clients held).2 env queued
  have stamp := inv.hub.stamped env numbered
  obtain ⟨handlers, wsEpoch, called, cursor⟩ :=
    dispatch_spec st.ws env inv.handles (stamp ▸ inv.epoch)
  have missing : ∀ f ∈ (({ st with hub := hub } : Feed).receive env).missing, f ∈ st.missing :=
    fun f missing => missing_congr frames ▸ missing_receive missing
  have kept : Keeps c topicLive st.hub hub := Keeps.step inv.hub moved (inv.hub.registered held) rfl
  obtain ⟨cl₁, held₁, topics, given⟩ := kept _ held'
  cases held.symm.trans held₁
  have since : st.hub.since hub topicLive = [] := by simp [State.since, frames]
  simp only [since, ite_self, List.append_nil] at given
  refine ⟨inv', handlers ▸ inv.handles, ?_, ?_, ?_,
    (phase_some (({ st with hub := hub } : Feed).receive env) up).mpr ⟨_, held', ?_⟩⟩
  · exact (stamp.trans epoch.symm) ▸ wsEpoch
  · change (st.ws.dispatch env).1.lastSeqFor topicLive ≤ hub.hub.seqOf topicLive
    have bounded := inv.bounded
    rw [seqOf]
    split at cursor
    · rename_i live
      have := inv.hub.seq_le (List.mem_filter.mpr ⟨numbered, by simpa using live⟩)
      omega
    · omega
  · intro n start
    change n ≤ hub.frames.length
    rw [frames]
    exact inv.first n start
  · obtain ⟨cl₂, held₂, phase⟩ := (phase_some _ up).mp inv.phase
    cases held.symm.trans held₂
    rcases phase with waiting | served
    · -- Nothing of the live topic can be in the queue yet, so its cursor does not move up.
      have other : env.topic ≠ topicLive := by
        intro live
        have handed : env ∈ cl.handed topicLive := List.mem_filter.mpr ⟨queued, by simpa using live⟩
        rw [(List.append_eq_nil_iff.mp waiting.nothing).1] at handed
        cases handed
      rw [if_neg other] at cursor
      refine .inl ⟨mt topics.mp waiting.unwanted, ?_, waiting.asked, waiting.distinct, ?_, ?_, ?_,
        ?_⟩
      · rw [waiting.nothing] at given
        exact given.eq_nil
      · exact fun r asked => epoch ▸ waiting.epoch r asked
      · exact fun r asked live => seqOf ▸ waiting.bounded r asked live
      · exact fun r asked live f new => waiting.above r asked live f (missing f new)
      · exact fun f new => Nat.lt_of_le_of_lt cursor (waiting.behind f (missing f new))
    · refine .inr ⟨topics.mpr served.wanted, served.handled, fun f new => ?_, fun f sent live => ?_⟩
      · exact given.mem_iff.mpr (served.owed f (missing f new))
      · rcases List.mem_append.mp sent with old | new
        · exact mem_dispatched_receive env (served.seen f old live)
        · obtain rfl := List.mem_singleton.mp new
          simp [receive, called live]

/-! ## Whole runs -/

theorem Inv.step {st : Feed} {a : Feed.Action} (inv : Inv st) (covered : st.covered a = true)
    (inOrder : st.inOrder a = true) (taken : st.step a = some st') : Inv st' := by
  cases a with
  | broadcast topic type data => exact inv.broadcast taken
  | handOver i => exact inv.handOver inOrder taken
  | deliver => exact inv.deliver taken
  | drop => exact inv.drop inOrder taken
  | reconnect => exact inv.reconnect taken
  | request => exact inv.request covered taken

theorem inv_start (epoch : String) {handlers : List String} (distinct : handlers.Nodup)
    (handles : topicLive ∈ handlers) : Inv (start epoch handlers distinct) where
  hub := inv_initial epoch
  handles := handles
  epoch := .inl rfl
  bounded := Nat.le_refl 0
  first n start := by cases start
  phase f missing := by cases missing

/-- **The live feed resumes without loss** while no connection ends over a frame that was
overtaken: once connected with nothing on its way, every frame broadcast after the first
subscription was dispatched. -/
theorem resumed_of_inOrder {epoch : String} {handlers : List String} {distinct : handlers.Nodup}
    (handles : topicLive ∈ handlers) {st : Feed}
    (run : Reaches step (fun st a => st.covered a = true ∧ st.inOrder a = true)
      (start epoch handlers distinct) st) (settled : st.settled = true) :
    ∀ f ∈ st.expected, f ∈ st.dispatched := by
  have inv : Inv st := run.invariant (inv_start epoch distinct handles)
    fun t a u inv cond taken => inv.step cond.1 cond.2 taken
  simp only [Feed.settled, Bool.and_eq_true, List.isEmpty_iff] at settled
  obtain ⟨⟨up, handled⟩, quiet⟩ := settled
  obtain ⟨c, up⟩ := Option.isSome_iff_exists.mp up
  obtain ⟨cl, held, waiting | served⟩ := (phase_some _ up).mp inv.phase
  · obtain ⟨r, asked, -⟩ := waiting.asked
    rw [handled] at asked
    cases asked
  · intro f expected
    by_contra unseen
    have flying := served.mem_inFlight up held (mem_missing.mpr ⟨expected, unseen⟩)
    rw [quiet] at flying
    cases flying

/-- The connection drops between two frames that arrive in order. -/
def dropInOrder : List Feed.Action :=
  [.reconnect, .request, .broadcast topicLive "event" "x", .handOver 0, .deliver,
    .broadcast topicLive "event" "y", .drop, .broadcast topicLive "event" "z", .reconnect, .request,
    .handOver 1, .deliver, .handOver 1, .deliver]

theorem resumed_of_inOrder_drop :
    ∃ st, Reaches step (fun st a => st.covered a = true ∧ st.inOrder a = true)
        (start "a" [topicLive] (by decide)) st ∧ st.settled = true ∧
      st.expected.map Envelope.data = ["x", "y", "z"] ∧ ∀ f ∈ st.expected, f ∈ st.dispatched := by
  let st := (exec (guarded step fun st a => st.covered a = true ∧ st.inOrder a = true)
    (start "a" [topicLive] (by decide)) dropInOrder).get (by decide)
  have run : Reaches step (fun st a => st.covered a = true ∧ st.inOrder a = true)
      (start "a" [topicLive] (by decide)) st := Reaches.of_exec (Option.some_get _).symm
  have settled : st.settled = true := by decide
  exact ⟨st, run, settled, by decide, resumed_of_inOrder (by decide) run settled⟩

/-- On the second connection the frame "z" overtakes the replay of "y" and is dispatched, and the
connection drops. -/
def dropOvertaken : List Feed.Action :=
  [.reconnect, .request, .broadcast topicLive "event" "x", .handOver 0, .deliver, .drop,
    .broadcast topicLive "event" "y", .reconnect, .request, .broadcast topicLive "event" "z",
    .handOver 1, .deliver, .drop, .reconnect, .request]

/-- The ring held every missing frame at each subscribe, and still "y" never reaches a handler. -/
theorem not_resumed_overtaken :
    ∃ st, Reaches step (fun st a => st.covered a = true) (start "a" [topicLive] (by decide)) st ∧
      st.settled = true ∧ (st.hub.hub.ring topicLive).map Envelope.data = ["x", "y", "z"] ∧
      st.dispatched.map Envelope.data = ["x", "z"] ∧
      ∃ f ∈ st.expected, f.data = "y" ∧ f ∉ st.dispatched := by
  let st := (exec (guarded step fun st a => st.covered a = true)
    (start "a" [topicLive] (by decide)) dropOvertaken).get (by decide)
  have run : Reaches step (fun st a => st.covered a = true)
      (start "a" [topicLive] (by decide)) st := Reaches.of_exec (Option.some_get _).symm
  let y : Envelope := ⟨topicLive, "event", 2, "a", "y"⟩
  exact ⟨st, run, by decide, by decide, by decide, y, by decide, rfl, by decide⟩

end Feed

end Kconmon.Console.Ws
