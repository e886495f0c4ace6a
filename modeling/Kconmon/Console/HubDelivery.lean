import Kconmon.Console.Hub
import Mathlib.Data.List.Perm.Basic
import Mathlib.Data.List.Range

/-!
# What a hub owes a subscriber

In every run the ring of a topic is the newest frames of the topic, numbered without gaps.
A client that subscribes once is handed, or still owed, each frame the subscribe replayed and
each frame broadcast since, once, and no other frame of the topic: selection for replay and
capture as a target happen under one lock, so that no frame falls to both or to neither.
-/
namespace Kconmon.Console.Ws
open Lib

/-- Frames of a topic counted after `st` and up to `st'`. -/
def State.since (st st' : State) (topic : String) : List Envelope :=
  (st'.frames.drop st.frames.length).filter (·.topic = topic)

/-! ## Numbering -/

/-- The connection is one that was registered, and its queue took frames of the history only. -/
def State.Knows (st : State) (c : Nat) (cl : Client) : Prop :=
  c < st.next ∧ ∀ env ∈ cl.send.all, env ∈ st.frames

/-- The counter and the ring of every topic agree with its history; a connection is new, and what
is queued for one or owed to one is in the history. -/
structure Inv (st : State) : Prop where
  counted : ∀ topic, st.hub.seqOf topic = (st.history topic).length
  numbered : ∀ topic, (st.history topic).map Envelope.seq = List.range' 1 (st.history topic).length
  ring : ∀ topic, st.hub.ring topic = (st.history topic).rtake (ringSize topic)
  stamped : ∀ env ∈ st.frames, env.epoch = st.hub.epoch
  clients : ∀ {c cl}, st.hub.clients.lookup c = some cl → st.Knows c cl
  handovers : ∀ o ∈ st.outstanding, o.client < st.next ∧ o.env ∈ st.frames

theorem inv_initial (epoch : String) : Inv (initial epoch) where
  counted _ := rfl
  numbered _ := rfl
  ring _ := by simp [initial, State.history, Hub.ring]
  stamped := by simp [initial]
  clients held := nomatch held
  handovers := by simp [initial]

variable {st : State} {c : Nat}

theorem Inv.registered (inv : Inv st) {cl : Client} (held : st.hub.clients.lookup c = some cl) :
    c < st.next := (inv.clients held).1

variable {topic : String} {env : Envelope}

theorem Inv.mem_of_ring (inv : Inv st) (kept : env ∈ st.hub.ring topic) : env ∈ st.frames := by
  rw [inv.ring] at kept
  exact (List.mem_filter.mp (List.mem_of_mem_drop kept)).1

theorem Inv.topic_of_ring (inv : Inv st) (kept : env ∈ st.hub.ring topic) : env.topic = topic := by
  rw [inv.ring] at kept
  exact of_decide_eq_true (List.mem_filter.mp (List.mem_of_mem_drop kept)).2

theorem Inv.nodup_history (inv : Inv st) (topic : String) : (st.history topic).Nodup := by
  have distinct : ((st.history topic).map Envelope.seq).Nodup := by
    rw [inv.numbered]
    exact List.nodup_range'
  exact distinct.of_map

variable {h h' : Hub} {targets : List Nat}

/-- The locked part of a broadcast: the frame it makes and what it leaves of the hub. -/
theorem broadcast_eq {type data : String}
    (sent : h.broadcast topic type data = some (h', env, targets)) :
    env.topic = topic ∧ env.seq = h.seqOf topic + 1 ∧ env.epoch = h.epoch ∧
      targets = h.targets topic ∧ h'.clients = h.clients ∧ h'.epoch = h.epoch ∧
      (∀ t, h'.seqOf t = if t = topic then env.seq else h.seqOf t) ∧
      (∀ t, h'.ring t = if t = topic then Ring.push (ringSize topic) (h.ring topic) env
        else h.ring t) := by
  unfold Hub.broadcast at sent
  split at sent <;> cases sent
  refine ⟨rfl, rfl, rfl, rfl, rfl, rfl, fun t => ?_, fun t => ?_⟩
  · simp only [Hub.seqOf, Hub.appendRing, GoMap.lookup_insert_if]
    split <;> rfl
  · simp only [Hub.ring, Hub.appendRing, GoMap.lookup_insert_if]
    split <;> rfl

/-- One hand-over: the queue of its client takes the frame, or the client goes. -/
theorem deliver_eq {o : Handover} (made : h.deliver o = some h') :
    h'.seq = h.seq ∧ h'.rings = h.rings ∧ h'.epoch = h.epoch ∧
      ∀ {c cl'}, h'.clients.lookup c = some cl' → ∃ cl, h.clients.lookup c = some cl ∧
        cl'.topics = cl.topics ∧ cl'.send.sent = cl.send.sent ∧
        cl'.send.all = cl.send.all ++ if o.client = c then [o.env] else [] := by
  unfold Hub.deliver at made
  split at made
  · rename_i gone
    cases made
    refine ⟨rfl, rfl, rfl, fun {c cl'} held => ⟨cl', held, rfl, rfl, ?_⟩⟩
    have other : o.client ≠ c := by
      rintro rfl
      simp [gone] at held
    simp [other]
  · rename_i cl held
    split at made
    · rename_i send taken
      cases made
      refine ⟨rfl, rfl, rfl, fun {c cl'} held' => ?_⟩
      simp only [Hub.setClient, GoMap.lookup_insert_if] at held'
      split at held'
      · rename_i same
        cases held'
        subst same
        exact ⟨cl, held, rfl, Outbox.sent_offer taken, by simp [Outbox.all_offer taken]⟩
      · rename_i other
        exact ⟨cl', held', rfl, rfl, by simp [Ne.symm other]⟩
    · split at made <;> cases made
      refine ⟨rfl, rfl, rfl, fun {c cl'} held' => ?_⟩
      simp only [Hub.unregister, GoMap.lookup_erase_if] at held'
      split at held'
      · cases held'
      · rename_i other
        exact ⟨cl', held', rfl, rfl, by simp [Ne.symm other]⟩

theorem history_append (st : State) (env : Envelope) (topic : String) :
    (st.frames ++ [env]).filter (·.topic = topic) =
      if topic = env.topic then st.history topic ++ [env] else st.history topic := by
  rw [List.filter_append, List.filter_singleton]
  by_cases same : topic = env.topic
  · simp [same, State.history]
  · simp [same, Ne.symm same, State.history]

variable {st' : State}

/-- A step that numbers no frame keeps what was said of the numbering. -/
theorem Inv.frame (inv : Inv st) (frames : st'.frames = st.frames) (seq : st'.hub.seq = st.hub.seq)
    (rings : st'.hub.rings = st.hub.rings) (epoch : st'.hub.epoch = st.hub.epoch)
    (clients : ∀ {c cl}, st'.hub.clients.lookup c = some cl → st'.Knows c cl)
    (handovers : ∀ o ∈ st'.outstanding, o.client < st'.next ∧ o.env ∈ st.frames) : Inv st' where
  counted topic := by
    simpa only [State.history, Hub.seqOf, frames, seq] using inv.counted topic
  numbered topic := by simpa only [State.history, frames] using inv.numbered topic
  ring topic := by
    simpa only [State.history, Hub.ring, frames, rings] using inv.ring topic
  stamped := by simpa only [frames, epoch] using inv.stamped
  clients := clients
  handovers := by simpa only [frames] using handovers

theorem mem_targets :
    c ∈ h.targets topic ↔ ∃ cl, h.clients.lookup c = some cl ∧ topic ∈ cl.topics := by
  simp only [Hub.targets, List.mem_map, List.mem_filter, decide_eq_true_eq]
  constructor
  · rintro ⟨⟨c, cl⟩, ⟨held, wants⟩, rfl⟩
    exact ⟨cl, AList.mem_lookup_iff.mpr held, wants⟩
  · rintro ⟨cl, held, wants⟩
    exact ⟨⟨c, cl⟩, ⟨AList.mem_lookup_iff.mp held, wants⟩, rfl⟩

theorem nodup_targets (h : Hub) (topic : String) : (h.targets topic).Nodup :=
  h.clients.nodupKeys.sublist List.filter_sublist

theorem Inv.broadcast (inv : Inv st) {type data : String}
    (sent : st.hub.broadcast topic type data = some (h', env, targets)) :
    Inv { st with hub := h'
                  outstanding := st.outstanding ++ targets.map fun c => ⟨c, env, false⟩
                  frames := st.frames ++ [env] } := by
  obtain ⟨rfl, seq, stamp, rfl, clients, epoch, seqOf, ring⟩ := broadcast_eq sent
  refine ⟨fun t => ?_, fun t => ?_, fun t => ?_, ?_, fun held => ?_, fun o made => ?_⟩
  · rw [seqOf, State.history, history_append, seq, inv.counted]
    split
    · simp [*]
    · exact inv.counted t
  · rw [State.history, history_append]
    split
    · rename_i same
      subst same
      rw [List.map_append, inv.numbered, List.length_append, List.length_singleton,
        List.range'_concat]
      simp [seq, inv.counted, Nat.add_comm]
    · exact inv.numbered t
  · rw [ring, State.history, history_append]
    split
    · rename_i same
      subst same
      rw [inv.ring, Ring.push_rtake]
    · exact inv.ring t
  · intro f numbered
    rw [epoch]
    rcases List.mem_append.mp numbered with old | new
    · exact inv.stamped f old
    · rw [List.mem_singleton.mp new, stamp]
  · rw [clients] at held
    exact ⟨inv.registered held, fun f all => List.mem_append_left _ ((inv.clients held).2 f all)⟩
  · rcases List.mem_append.mp made with old | new
    · exact ⟨(inv.handovers o old).1, List.mem_append_left _ (inv.handovers o old).2⟩
    · obtain ⟨c, target, rfl⟩ := List.mem_map.mp new
      obtain ⟨cl, held, -⟩ := mem_targets.mp target
      exact ⟨inv.registered held, by simp⟩

variable {a : Action}

theorem Inv.step (inv : Inv st) (taken : step st a = some st') : Inv st' := by
  cases a with
  | register =>
    cases taken
    refine inv.frame rfl rfl rfl rfl
      (GoMap.forall_entry_insert (P := State.Knows _) (fun held => ?_) ?_) fun o made => ?_
    · exact ⟨Nat.lt_succ_of_lt (inv.registered held), (inv.clients held).2⟩
    · exact ⟨Nat.lt_succ_self _, by simp [Outbox.all]⟩
    · exact ⟨Nat.lt_succ_of_lt (inv.handovers o made).1, (inv.handovers o made).2⟩
  | openTopic topic =>
    cases taken
    exact inv.frame rfl rfl rfl rfl inv.clients inv.handovers
  | broadcast topic type data =>
    simp only [Ws.step] at taken
    split at taken
    · cases taken
      exact inv
    · rename_i sent
      cases taken
      exact inv.broadcast sent
  | subscribe c topic lastSeq epoch =>
    obtain ⟨cl, held, rfl⟩ := step_subscribe taken
    have known := inv.clients held
    refine inv.frame rfl rfl rfl rfl
      (GoMap.forall_entry_insert (P := State.Knows _) inv.clients known) fun o made => ?_
    rcases List.mem_append.mp made with old | new
    · exact inv.handovers o old
    · obtain ⟨env, kept, rfl⟩ := List.mem_map.mp new
      exact ⟨known.1, inv.mem_of_ring (List.mem_filter.mp kept).1⟩
  | unsubscribe c topic =>
    obtain ⟨cl, held, rfl⟩ := Option.map_eq_some_iff.mp taken
    have known := inv.clients held
    exact inv.frame rfl rfl rfl rfl
      (GoMap.forall_entry_insert (P := State.Knows _) inv.clients known) inv.handovers
  | handOver i =>
    obtain ⟨o, hub, due, made, rfl⟩ := step_handOver taken
    obtain ⟨seq, rings, epoch, clients⟩ := deliver_eq made
    refine inv.frame rfl seq rings epoch (fun {c cl'} held' => ?_)
      fun o left => inv.handovers o (List.mem_of_mem_eraseIdx left)
    obtain ⟨cl, held, -, -, all⟩ := clients held'
    refine ⟨inv.registered held, fun env queued => ?_⟩
    rw [all] at queued
    rcases List.mem_append.mp queued with old | new
    · exact (inv.clients held).2 env old
    · obtain rfl : env = o.env := by
        split at new
        · exact List.mem_singleton.mp new
        · cases new
      exact (inv.handovers o (List.mem_of_getElem? due)).2
  | write c =>
    obtain ⟨cl, send, held, read, rfl⟩ := step_write taken
    refine inv.frame rfl rfl rfl rfl
      (GoMap.forall_entry_insert (P := State.Knows _) inv.clients ?_) inv.handovers
    simpa only [State.Knows, Outbox.all_receive read] using inv.clients held
  | unregister c =>
    cases taken
    refine inv.frame rfl rfl rfl rfl (fun held => ?_) inv.handovers
    simp only [Hub.unregister, GoMap.lookup_erase_if] at held
    split at held
    · cases held
    · exact inv.clients held

/-! ## Accounting for one subscription -/

/-- Whether an action leaves the subscription of `c` to `topic` alone. -/
def Action.leaves (c : Nat) (topic : String) : Action → Bool
  | .subscribe c' topic' _ _ | .unsubscribe c' topic' => c' ≠ c ∨ topic' ≠ topic
  | _ => true

/-- What `c` was handed of a topic and what it is still owed. -/
def State.given (st : State) (c : Nat) (cl : Client) (topic : String) : List Envelope :=
  cl.handed topic ++ st.owed c topic

/-- From `st` to `st'` the client is given the frames that are new, if it wants the topic, and
nothing else. -/
def Keeps (c : Nat) (topic : String) (st st' : State) : Prop :=
  ∀ cl', st'.hub.clients.lookup c = some cl' → ∃ cl, st.hub.clients.lookup c = some cl ∧
    (topic ∈ cl'.topics ↔ topic ∈ cl.topics) ∧ (st'.given c cl' topic).Perm
      (st.given c cl topic ++ if topic ∈ cl.topics then st.since st' topic else [])

/-- A step that numbers no frame and leaves the client what it was given. -/
theorem Keeps.of_given (frames : st'.frames = st.frames)
    (same : ∀ cl', st'.hub.clients.lookup c = some cl' → ∃ cl, st.hub.clients.lookup c = some cl ∧
      (topic ∈ cl'.topics ↔ topic ∈ cl.topics) ∧
      (st'.given c cl' topic).Perm (st.given c cl topic)) : Keeps c topic st st' := by
  intro cl' held'
  obtain ⟨cl, held, topics, given⟩ := same cl' held'
  refine ⟨cl, held, topics, ?_⟩
  simpa [State.since, frames] using given

theorem owed_append (st : State) (c : Nat) (topic : String) (more : List Handover) :
    ((st.outstanding ++ more).filter fun o => o.client = c ∧ o.env.topic = topic).map Handover.env =
      st.owed c topic ++
        (more.filter fun o => o.client = c ∧ o.env.topic = topic).map Handover.env := by
  rw [List.filter_append, List.map_append, State.owed]

/-- Of the hand-overs to the targets of a broadcast, at most one is to `c`. -/
theorem filter_targets (distinct : targets.Nodup) (c : Nat) (env : Envelope) (topic : String) :
    ((targets.map fun c => (⟨c, env, false⟩ : Handover)).filter fun o =>
      o.client = c ∧ o.env.topic = topic).map Handover.env =
      if c ∈ targets ∧ env.topic = topic then [env] else [] := by
  by_cases same : env.topic = topic
  · have one : targets.filter (· = c) = if c ∈ targets then [c] else [] := by
      rw [List.filter_eq, distinct.count]
      split <;> rfl
    rw [List.filter_map, List.map_map]
    simp only [Function.comp_def, same, and_true, one]
    split <;> rfl
  · simp [same]

theorem Keeps.broadcast {type data : String}
    (sent : st.hub.broadcast topic type data = some (h', env, targets)) (c : Nat) (topic' :
      String) :
    Keeps c topic' st
      { st with hub := h'
                outstanding := st.outstanding ++ targets.map fun c => ⟨c, env, false⟩
                frames := st.frames ++ [env] } := by
  obtain ⟨rfl, -, -, rfl, clients, -, -, -⟩ := broadcast_eq sent
  intro cl held
  rw [clients] at held
  refine ⟨cl, held, Iff.rfl, List.Perm.of_eq ?_⟩
  have wants : c ∈ st.hub.targets env.topic ↔ env.topic ∈ cl.topics := by
    simp [mem_targets, held]
  simp only [State.given, State.owed, State.since, owed_append, List.drop_left,
    filter_targets (nodup_targets _ _), wants]
  by_cases same : env.topic = topic'
  · subst same
    by_cases wanted : env.topic ∈ cl.topics <;> simp [wanted]
  · simp [same]

variable {epoch : String}

theorem Keeps.subscribe (inv : Inv st) {c' : Nat} {topic' : String} {lastSeq : Nat}
    (taken : step st (.subscribe c' topic' lastSeq epoch) = some st')
    (other : c' ≠ c ∨ topic' ≠ topic) : Keeps c topic st st' := by
  obtain ⟨cl, held, rfl⟩ := step_subscribe taken
  -- None of the replayed frames is of this topic and for this client.
  have none_new : ((st.hub.replay topic' lastSeq epoch).map fun env =>
      (⟨c', env, true⟩ : Handover)).filter (fun o => o.client = c ∧ o.env.topic = topic) = [] := by
    refine List.filter_eq_nil_iff.mpr fun o made both => ?_
    obtain ⟨env, kept, rfl⟩ := List.mem_map.mp made
    have of_topic := inv.topic_of_ring (List.mem_filter.mp kept).1
    have both := of_decide_eq_true both
    rcases other with other | other
    · exact other both.1
    · exact other (of_topic.symm.trans both.2)
  refine .of_given rfl fun cl' held' => ?_
  simp only [State.given, State.owed, owed_append, none_new, List.map_nil, List.append_nil]
  simp only [Hub.setClient, GoMap.lookup_insert_if] at held'
  split at held'
  · rename_i same
    cases held'
    subst same
    have differ : topic ≠ topic' := Ne.symm (other.resolve_left fun other => other rfl)
    exact ⟨cl, held, by simp [differ], .refl _⟩
  · exact ⟨cl', held', Iff.rfl, .refl _⟩

theorem Keeps.handOver {i : Nat} (taken : step st (.handOver i) = some st') (c : Nat)
    (topic : String) : Keeps c topic st st' := by
  obtain ⟨o, hub, due, made, rfl⟩ := step_handOver taken
  obtain ⟨-, -, -, clients⟩ := deliver_eq made
  refine .of_given rfl fun cl' held' => ?_
  obtain ⟨cl, held, topics, -, all⟩ := clients held'
  refine ⟨cl, held, by rw [topics], ?_⟩
  obtain ⟨bound, rfl⟩ := List.getElem?_eq_some_iff.mp due
  have split := (List.getElem_cons_eraseIdx_perm bound).symm
  have owed := (split.filter fun o => o.client = c ∧ o.env.topic = topic).map Handover.env
  simp only [State.given, State.owed, Client.handed, all, List.filter_append, List.append_assoc]
  refine List.Perm.append_left _ (.trans (.of_eq ?_) owed.symm)
  generalize st.outstanding[i] = o
  by_cases mine : o.client = c <;> by_cases same : o.env.topic = topic <;> simp [mine, same]

theorem Keeps.step (inv : Inv st) (taken : step st a = some st') (known : c < st.next)
    (leaves : a.leaves c topic) : Keeps c topic st st' := by
  cases a with
  | register =>
    cases taken
    refine .of_given rfl fun cl held => ⟨cl, ?_, Iff.rfl, .refl _⟩
    simpa [Hub.setClient, GoMap.lookup_insert_if, Nat.ne_of_lt known] using held
  | openTopic topic =>
    cases taken
    exact .of_given rfl fun cl held => ⟨cl, held, Iff.rfl, .refl _⟩
  | broadcast topic type data =>
    simp only [Ws.step] at taken
    split at taken
    · cases taken
      exact .of_given rfl fun cl held => ⟨cl, held, Iff.rfl, .refl _⟩
    · rename_i sent
      cases taken
      exact Keeps.broadcast sent _ _
  | subscribe c' topic' lastSeq epoch => exact Keeps.subscribe inv taken (of_decide_eq_true leaves)
  | unsubscribe c' topic' =>
    obtain ⟨cl, held, rfl⟩ := Option.map_eq_some_iff.mp taken
    refine .of_given rfl fun cl' held' => ?_
    simp only [Hub.unsubscribe, Hub.setClient, GoMap.lookup_insert_if] at held'
    split at held'
    · rename_i same
      cases held'
      subst same
      have differ : topic ≠ topic' :=
        Ne.symm ((of_decide_eq_true leaves).resolve_left fun other => other rfl)
      exact ⟨cl, held, by simp [differ], .refl _⟩
    · exact ⟨cl', held', Iff.rfl, .refl _⟩
  | handOver i => exact Keeps.handOver taken c topic
  | write c' =>
    obtain ⟨cl, send, held, read, rfl⟩ := step_write taken
    refine .of_given rfl fun cl' held' => ?_
    simp only [Hub.setClient, GoMap.lookup_insert_if] at held'
    split at held'
    · rename_i same
      cases held'
      subst same
      refine ⟨cl, held, Iff.rfl, .of_eq ?_⟩
      simp [State.given, State.owed, Client.handed, Outbox.all_receive read]
    · exact ⟨cl', held', Iff.rfl, .refl _⟩
  | unregister c' =>
    cases taken
    refine .of_given rfl fun cl held => ⟨cl, ?_, Iff.rfl, .refl _⟩
    simp only [Hub.unregister, GoMap.lookup_erase_if] at held
    split at held
    · cases held
    · exact held

/-! ## Whole runs -/

/-- Frames are only added, the epoch stays, and only a registration makes a connection known. -/
theorem grows_step (taken : step st a = some st') :
    st.frames <+: st'.frames ∧ st'.hub.epoch = st.hub.epoch ∧
      (a ≠ .register → st'.next = st.next) := by
  cases a with
  | register =>
    cases taken
    exact ⟨List.prefix_rfl, rfl, fun other => absurd rfl other⟩
  | openTopic | unregister =>
    cases taken
    exact ⟨List.prefix_rfl, rfl, fun _ => rfl⟩
  | broadcast topic type data =>
    simp only [step] at taken
    split at taken
    · cases taken
      exact ⟨List.prefix_rfl, rfl, fun _ => rfl⟩
    · rename_i sent
      cases taken
      obtain ⟨-, -, -, -, -, epoch, -, -⟩ := broadcast_eq sent
      exact ⟨List.prefix_append _ _, epoch, fun _ => rfl⟩
  | subscribe =>
    obtain ⟨cl, -, rfl⟩ := step_subscribe taken
    exact ⟨List.prefix_rfl, rfl, fun _ => rfl⟩
  | unsubscribe =>
    obtain ⟨cl, -, rfl⟩ := Option.map_eq_some_iff.mp taken
    exact ⟨List.prefix_rfl, rfl, fun _ => rfl⟩
  | handOver =>
    obtain ⟨o, hub, -, made, rfl⟩ := step_handOver taken
    exact ⟨List.prefix_rfl, (deliver_eq made).2.2.1, fun _ => rfl⟩
  | write =>
    obtain ⟨cl, send, -, -, rfl⟩ := step_write taken
    exact ⟨List.prefix_rfl, rfl, fun _ => rfl⟩

theorem next_le_step (taken : step st a = some st') : st.next ≤ st'.next := by
  by_cases register : a = .register
  · subst register
    cases taken
    exact Nat.le_succ _
  · exact Nat.le_of_eq ((grows_step taken).2.2 register).symm

theorem since_append {t u : State} (first : st.frames <+: t.frames) (second : t.frames <+: u.frames)
    (topic : String) : st.since u topic = st.since t topic ++ t.since u topic := by
  obtain ⟨more, first⟩ := first
  obtain ⟨most, second⟩ := second
  simp [State.since, ← second, ← first]

theorem history_eq {t : State} (first : st.frames <+: t.frames) (topic : String) :
    t.history topic = st.history topic ++ st.since t topic := by
  obtain ⟨more, first⟩ := first
  simp [State.history, State.since, ← first]

theorem Keeps.trans {t u : State} (first : Keeps c topic st t) (second : Keeps c topic t u)
    (before : st.frames <+: t.frames) (after : t.frames <+: u.frames) : Keeps c topic st u := by
  intro cl'' held''
  obtain ⟨cl', held', topics', given'⟩ := second cl'' held''
  obtain ⟨cl, held, topics, given⟩ := first cl' held'
  refine ⟨cl, held, topics'.trans topics, ?_⟩
  have both := given'.trans (given.append_right _)
  rw [since_append before after]
  by_cases wanted : topic ∈ cl.topics
  · simpa [wanted, topics.mpr wanted] using both
  · simpa [wanted, mt topics.mp wanted] using both

/-- A run that leaves a subscription alone gives the client the new frames it wants, once. -/
theorem Keeps.run (inv : Inv st) (known : c < st.next)
    (run : Reaches Ws.step (fun _ a => a.leaves c topic) st st') :
    Inv st' ∧ c < st'.next ∧ st.frames <+: st'.frames ∧ Keeps c topic st st' := by
  refine run.invariant (I := fun t => Inv t ∧ c < t.next ∧ st.frames <+: t.frames ∧
    Keeps c topic st t) ⟨inv, known, List.prefix_rfl,
    .of_given rfl fun cl held => ⟨cl, held, Iff.rfl, .refl _⟩⟩ ?_
  rintro t a u ⟨inv, known, before, kept⟩ leaves taken
  have after := (grows_step taken).1
  exact ⟨inv.step taken, Nat.lt_of_lt_of_le known (next_le_step taken), before.trans after,
    kept.trans (Keeps.step inv taken known leaves) before after⟩

/-- Before it subscribes, a client was given nothing of the topic. -/
def Unsubscribed (c : Nat) (topic : String) (st : State) : Prop :=
  ∀ cl, st.hub.clients.lookup c = some cl → topic ∉ cl.topics ∧ st.given c cl topic = []

theorem Unsubscribed.step (inv : Inv st) (unsubscribed : Unsubscribed c topic st)
    (leaves : a.leaves c topic) (taken : step st a = some st') : Unsubscribed c topic st' := by
  intro cl' held'
  by_cases known : c < st.next
  · obtain ⟨cl, held, topics, given⟩ := Keeps.step inv taken known leaves cl' held'
    obtain ⟨unwanted, nothing⟩ := unsubscribed cl held
    refine ⟨mt topics.mp unwanted, ?_⟩
    simpa [unwanted, nothing] using given
  · -- Only a registration of this connection makes it known, and it starts out empty.
    have register : a = .register := by
      by_contra other
      have known' := (inv.step taken).registered held'
      rw [(grows_step taken).2.2 other] at known'
      exact known known'
    subst register
    have next := (inv.step taken).registered held'
    cases taken
    obtain rfl : c = st.next := by
      change c < st.next + 1 at next
      omega
    obtain rfl : ({} : Client) = cl' := by simpa [Hub.setClient] using held'
    have owed : st.owed st.next topic = [] := by
      simp only [State.owed, List.map_eq_nil_iff, List.filter_eq_nil_iff, decide_eq_true_eq]
      rintro o made ⟨mine, -⟩
      have := (inv.handovers o made).1
      omega
    exact ⟨by simp, owed⟩

theorem Unsubscribed.run (run : Reaches Ws.step (fun _ a => a.leaves c topic) (initial epoch) st) :
    Inv st ∧ Unsubscribed c topic st := by
  refine run.invariant (I := fun t => Inv t ∧ Unsubscribed c topic t)
    ⟨inv_initial epoch, fun cl held => nomatch held⟩ ?_
  rintro t a u ⟨inv, unsubscribed⟩ leaves taken
  exact ⟨inv.step taken, unsubscribed.step inv leaves taken⟩

/-- The subscribe itself: the client is given what is replayed. -/
theorem given_subscribe {lastSeq : Nat} (inv : Inv st) (unsubscribed : Unsubscribed c topic st)
    (taken : step st (.subscribe c topic lastSeq epoch) = some st') :
    ∃ cl, st'.hub.clients.lookup c = some cl ∧ topic ∈ cl.topics ∧
      st'.given c cl topic = st.hub.replay topic lastSeq epoch := by
  obtain ⟨cl, held, rfl⟩ := step_subscribe taken
  obtain ⟨handed, owed⟩ := List.append_eq_nil_iff.mp (unsubscribed cl held).2
  refine ⟨_, Hub.lookup_setClient_self _ _ _, by simp, ?_⟩
  have all_new : (st.hub.replay topic lastSeq epoch).filter (·.topic = topic) =
      st.hub.replay topic lastSeq epoch := by
    refine List.filter_eq_self.mpr fun env kept => ?_
    simpa using inv.topic_of_ring (List.mem_filter.mp kept).1
  simp only [Client.handed] at handed
  rw [State.given, Client.handed, handed, State.owed, owed_append, owed, List.filter_map,
    List.map_map]
  simpa [Function.comp_def] using all_new

/-! ## Completing the hand-overs -/

/-- A run that numbers no frame and keeps every client. -/
def Continues (P : State → Action → Prop) (st st' : State) : Prop :=
  Reaches step P st st' ∧ st'.frames = st.frames ∧
    ∀ c, (st.hub.clients.lookup c).isSome → (st'.hub.clients.lookup c).isSome

theorem isSome_setClient {d : Nat} (cl : Client) (held : (h.clients.lookup c).isSome) :
    ((h.setClient d cl).clients.lookup c).isSome := by
  rw [Hub.setClient, GoMap.lookup_insert_if]
  split
  · rfl
  · exact held

/-- The write pump can empty a queue. -/
theorem drain (c : Nat) (topic : String) {d : Nat} {cl : Client}
    (held : st.hub.clients.lookup d = some cl) :
    ∃ st' cl', Continues (fun _ a => a.leaves c topic) st st' ∧ st'.outstanding = st.outstanding ∧
      st'.hub.clients.lookup d = some cl' ∧ cl'.send.queue = [] := by
  induction waiting : cl.send.queue generalizing st cl with
  | nil => exact ⟨st, cl, ⟨.refl, rfl, fun _ known => known⟩, rfl, held, waiting⟩
  | cons env queue ih =>
    let send : Outbox Envelope := ⟨queue, cl.send.sent ++ [env]⟩
    let st₁ : State := { st with hub := st.hub.setClient d { cl with send } }
    have written : step st (.write d) = some st₁ := by
      simp [step, held, Outbox.receive, waiting, send, st₁]
    have one : Reaches step (fun _ a => a.leaves c topic) st st₁ := Reaches.refl.snoc rfl written
    have held₁ := st.hub.lookup_setClient_self d { cl with send }
    obtain ⟨st', cl', ⟨run, frames, kept⟩, outstanding, held', empty⟩ :=
      @ih st₁ { cl with send } held₁ rfl
    refine ⟨st', cl', ⟨one.trans run, frames, fun c known => ?_⟩, outstanding, held', empty⟩
    exact kept c (isSome_setClient _ known)

/-- The first hand-over can be made without losing a client. -/
theorem handOver_first (c : Nat) (topic : String) {o : Handover} {rest : List Handover}
    (due : st.outstanding = o :: rest) :
    ∃ st', Continues (fun _ a => a.leaves c topic) st st' ∧ st'.outstanding = rest := by
  cases held : st.hub.clients.lookup o.client with
  | none =>
    have made : step st (.handOver 0) = some { st with outstanding := rest } := by
      simp [step, due, Hub.deliver, held]
    exact ⟨_, ⟨Reaches.refl.snoc rfl made, rfl, fun _ known => known⟩, rfl⟩
  | some cl =>
    obtain ⟨st', cl', ⟨run, frames, kept⟩, outstanding, held', empty⟩ := drain c topic held
    let send : Outbox Envelope := ⟨[o.env], cl'.send.sent⟩
    have made : step st' (.handOver 0) = some { st' with
        hub := st'.hub.setClient o.client { cl' with send }, outstanding := rest } := by
      simp [step, outstanding, due, Hub.deliver, held', Outbox.offer, Outbox.full, empty,
        sendBuffer, send]
    exact ⟨_, ⟨run.snoc rfl made, frames, fun c known => isSome_setClient _ (kept c known)⟩, rfl⟩

/-- Whatever is owed can be handed over, to the last frame. -/
theorem settle (c : Nat) (topic : String) (st : State) :
    ∃ st', Continues (fun _ a => a.leaves c topic) st st' ∧ st'.outstanding = [] := by
  induction due : st.outstanding generalizing st with
  | nil => exact ⟨st, ⟨.refl, rfl, fun _ known => known⟩, due⟩
  | cons o rest ih =>
    obtain ⟨t, ⟨run, frames, kept⟩, outstanding⟩ := handOver_first c topic due
    obtain ⟨u, ⟨run', frames', kept'⟩, settled⟩ := ih t outstanding
    exact ⟨u, ⟨run.trans run', frames'.trans frames, fun c known => kept' c (kept c known)⟩,
      settled⟩

/-! ## The result -/

/-- The ring of every topic is its newest frames, as many as fit, and frames are numbered from
one on without gaps. -/
def RingsExact (st : State) : Prop := ∀ topic, st.hub.ring topic <:+ st.history topic ∧
    (st.hub.ring topic).length = min (ringSize topic) (st.history topic).length ∧
    (st.history topic).map Envelope.seq = List.range' 1 (st.history topic).length

theorem Inv.rings (inv : Inv st) : RingsExact st := by
  intro topic
  refine ⟨?_, ?_, inv.numbered topic⟩
  · rw [inv.ring]
    exact List.drop_suffix _ _
  · rw [inv.ring, Ring.length_rtake]

/-- **Exactly once.** Of a topic it subscribed to once, with any cursor of any hub, a client that
is still registered was handed or is owed each frame the ring held above the honoured cursor and
each frame broadcast since, one time, and no other; what is owed can all be handed over. -/
theorem handed_exactly_once {epoch : String} {c : Nat} {topic : String} {lastSeq : Nat}
    {cursorEpoch : String} {before subscribed st : State} {cl : Client}
    (earlier : Reaches step (fun _ a => a.leaves c topic) (initial epoch) before)
    (subscribe : step before (.subscribe c topic lastSeq cursorEpoch) = some subscribed)
    (later : Reaches step (fun _ a => a.leaves c topic) subscribed st)
    (registered : st.hub.clients.lookup c = some cl) :
    (∀ env, (cl.handed topic).count env + (st.owed c topic).count env =
      if (env ∈ before.hub.ring topic ∧ before.hub.honoured lastSeq cursorEpoch < env.seq) ∨
        env ∈ before.since st topic then 1 else 0) ∧
      (∃ done cl', Reaches step (fun _ a => a.leaves c topic) st done ∧ done.frames = st.frames ∧
        done.hub.clients.lookup c = some cl' ∧ done.owed c topic = []) ∧
      RingsExact before ∧ RingsExact st := by
  obtain ⟨inv, unsubscribed⟩ := Unsubscribed.run earlier
  obtain ⟨cl₁, held₁, wanted, given₁⟩ := given_subscribe inv unsubscribed subscribe
  have inv₁ := inv.step subscribe
  have grown := (grows_step subscribe).1
  obtain ⟨inv', -, frames, kept⟩ := Keeps.run inv₁ (inv₁.registered held₁) later
  obtain ⟨cl₂, held₂, -, given⟩ := kept cl registered
  cases held₁.symm.trans held₂
  have since : before.since st topic = subscribed.since st topic := by
    obtain ⟨_, _, rfl⟩ := step_subscribe subscribe
    rfl
  rw [given₁, if_pos wanted, ← since] at given
  -- Replayed frames are older than the subscribe, the others younger: no frame is both.
  have distinct : (before.hub.replay topic lastSeq cursorEpoch ++ before.since st topic).Nodup := by
    have nodup := inv'.nodup_history topic
    rw [history_eq (grown.trans frames)] at nodup
    refine nodup.sublist (List.Sublist.append_right ?_ _)
    rw [Hub.replay, inv.ring]
    exact List.filter_sublist.trans (List.drop_sublist _ _)
  refine ⟨fun env => ?_, ?_, inv.rings, inv'.rings⟩
  · rw [← List.count_append, ← State.given, given.count_eq, distinct.count]
    simp [Hub.replay]
  · obtain ⟨done, ⟨run, same, known⟩, settled⟩ := settle c topic st
    obtain ⟨cl', held'⟩ := Option.isSome_iff_exists.mp (known c (by simp [registered]))
    exact ⟨done, cl', run, same, held', by simp [State.owed, settled]⟩

/-- A frame broadcast after the subscribe is handed over ahead of one it replays. -/
theorem handed_exactly_once_overtaken : ∃ before subscribed st cl,
      Reaches step (fun _ a => a.leaves 0 topicLive) (initial "a") before ∧
      step before (.subscribe 0 topicLive 1 "a") = some subscribed ∧
      Reaches step (fun _ a => a.leaves 0 topicLive) subscribed st ∧
      st.hub.clients.lookup 0 = some cl ∧ (before.hub.ring topicLive).map Envelope.seq = [1, 2] ∧
      (cl.handed topicLive).map Envelope.seq = [3] ∧
      ∀ env ∈ before.hub.ring topicLive, env.seq = 2 → env ∈ st.owed 0 topicLive := by
  let leaves : State → Action → Prop := fun _ a => a.leaves 0 topicLive
  let before := (exec (guarded step leaves) (initial "a")
    [.register, .broadcast topicLive "event" "x", .broadcast topicLive "event" "y"]).get
    (by decide)
  let subscribed := (step before (.subscribe 0 topicLive 1 "a")).get (by decide)
  let st := (exec (guarded step leaves) subscribed
    [.broadcast topicLive "event" "z", .handOver 1]).get (by decide)
  let cl := (st.hub.clients.lookup 0).get (by decide)
  have earlier : Reaches step leaves (initial "a") before :=
    Reaches.of_exec (Option.some_get _).symm
  have subscribe : step before (.subscribe 0 topicLive 1 "a") = some subscribed :=
    (Option.some_get _).symm
  have later : Reaches step leaves subscribed st := Reaches.of_exec (Option.some_get _).symm
  have registered : st.hub.clients.lookup 0 = some cl := (Option.some_get _).symm
  have handed : (cl.handed topicLive).map Envelope.seq = [3] := by decide
  refine ⟨before, subscribed, st, cl, earlier, subscribe, later, registered, by decide,
    handed, fun env kept second => ?_⟩
  obtain ⟨once, -⟩ := handed_exactly_once earlier subscribe later registered
  have due := once env
  have honoured : before.hub.honoured 1 "a" = 1 := by decide
  rw [if_pos (.inl ⟨kept, by rw [honoured, second]; decide⟩)] at due
  have not_handed : (cl.handed topicLive).count env = 0 := by
    refine List.count_eq_zero.mpr fun mem => ?_
    have := List.mem_map_of_mem (f := Envelope.seq) mem
    simp [handed, second] at this
  rw [not_handed, Nat.zero_add] at due
  exact List.count_pos_iff.mp (by rw [due]; decide)

end Kconmon.Console.Ws
