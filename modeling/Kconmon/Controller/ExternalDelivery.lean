import Kconmon.Controller.ExternalApply

/-!
# Delivery of external assignments

Sends run outside the lock, so two PUTs may send in the opposite order of their
updates, and a push that one stream took is not repeated for a stream whose
channel was full. In a run without these two accidents, every open stream that
has drained its channel was last delivered the recorded assignment, or its agent
is marked and the next PUT pushes it again.
-/
namespace Kconmon.Controller.External
open Lib

namespace State

def recorded (st : State) (agentID : String) : Specs := st.manager.assignment agentID

def full (st : State) (c : Nat) : Bool :=
  (st.streams.lookup c).any fun s => s.box.full externalSubscriberBuffer

def closed (st : State) (c : Nat) : Bool := (st.streams.lookup c).all fun s => !s.isOpen

/-- A closed stream, or one whose newest assignment is the recorded one. -/
def settled (st : State) (c : Nat) : Bool :=
  (st.streams.lookup c).all fun s => !s.isOpen || s.box.newest = some (st.recorded s.agentID)

/-- Some call still has to send the recorded assignment of the agent to this channel. -/
def ahead (st : State) (agentID : String) (c : Nat) : Bool :=
  st.applies.entries.any fun e => e.2.any fun p =>
    p.agentID = agentID ∧ p.specs = st.recorded agentID ∧ c ∈ p.chans.drop p.next

/-- No call is between its locked step and its last send, and every open channel is drained. -/
def Quiet (st : State) : Prop := (∀ k, st.pending k = []) ∧
    ∀ c s, st.streams.lookup c = some s → s.isOpen = true → s.box.queue = []

/-- Every open stream was last delivered the recorded assignment, or its agent is marked, and
then any PUT pushes the agent again. -/
def Delivered (st : State) : Prop :=
  ∀ c s, st.streams.lookup c = some s → s.isOpen = true → s.started = true →
    s.box.sent.getLast? = some (st.recorded s.agentID) ∨
    (s.agentID ∈ st.manager.resync ∧ ∀ ord chans desired unknown,
      ∃ p ∈ (applyLocked chans desired unknown ord st.manager).2, p.agentID = s.agentID)

theorem quiet_of_entries {st : State} (idle : ∀ e ∈ st.applies.entries, e.2 = [])
    (drained : ∀ e ∈ st.streams.entries, e.2.isOpen = true → e.2.box.queue = []) : st.Quiet := by
  refine ⟨fun k => ?_, fun c s hs => drained ⟨c, s⟩ (AList.mem_lookup_iff.mp hs)⟩
  unfold pending
  cases found : st.applies.lookup k with
  | none => rfl
  | some ps => exact idle ⟨k, ps⟩ (AList.mem_lookup_iff.mp found)

@[simp] theorem pending_insert (st : State) (k j : Nat) (ps : List Push) :
    { st with applies := AList.insert k ps st.applies }.pending j =
      if j = k then ps else st.pending j := by
  unfold pending
  rw [GoMap.lookup_insert_if]
  split <;> rfl

end State

/-- The two accidents a send must not be. A superseded assignment goes to an open stream only
while the send of the recorded one to it is still ahead, and the recorded one is not taken by
one stream and refused by another that needs it. A marked agent is safe in any case. -/
def orderly (st : State) : Action → Bool
  | .send k =>
    match st.pending k with
    | [] => true
    | p :: _ =>
      match p.chans[p.next]? with
      | none => true
      | some c =>
        p.agentID ∈ st.manager.resync ∨
        if p.specs = st.recorded p.agentID then
          if st.full c then p.queued = false ∨ st.settled c
          else p.queued = true ∨ ∀ d ∈ p.chans.take p.next, st.settled d
        else st.full c ∨ st.closed c ∨ st.ahead p.agentID c
  | _ => true

/-! ## The invariant -/

/-- Why an open stream does not lose the recorded assignment: it has it, it was sent nothing
yet, its agent is marked, or a call is going to send it or to mark the agent. -/
def Covered (st : State) (c : Nat) (s : Stream) : Prop :=
  s.box.newest = none ∨ s.box.newest = some (st.recorded s.agentID) ∨
    s.agentID ∈ st.manager.resync ∨
  ∃ k, ∃ p ∈ st.pending k, p.agentID = s.agentID ∧ p.specs = st.recorded s.agentID ∧
    (c ∈ p.chans.drop p.next ∨ p.queued = false ∧ c ∈ p.chans.take p.next)

structure Inv (st : State) : Prop where
  chans : ∀ k, ∀ p ∈ st.pending k, ∀ c ∈ p.chans,
    ∃ s, st.streams.lookup c = some s ∧ s.agentID = p.agentID
  covered : ∀ c s, st.streams.lookup c = some s → s.isOpen = true → Covered st c s
  started : ∀ c s, st.streams.lookup c = some s → s.started = true → s.box.sent ≠ []

variable {c : Nat} {s s' : Stream} {st' : State}

/-- A stream stays covered when the record, the marks and the calls in progress do. -/
theorem Covered.of_same {st : State} (h : Covered st c s) (agent : s'.agentID = s.agentID)
    (newest : s'.box.newest = s.box.newest)
    (record : st'.recorded s.agentID = st.recorded s.agentID)
    (marks : s.agentID ∈ st.manager.resync → s.agentID ∈ st'.manager.resync)
    (calls : ∀ k, ∀ p ∈ st.pending k, ∃ k', p ∈ st'.pending k') : Covered st' c s' := by
  unfold Covered
  rw [agent, newest, record]
  rcases h with none | same | marked | ⟨k, p, hp, rest⟩
  · exact .inl none
  · exact .inr (.inl same)
  · exact .inr (.inr (.inl (marks marked)))
  · obtain ⟨k', hp'⟩ := calls k p hp
    exact .inr (.inr (.inr ⟨k', p, hp', rest⟩))

theorem mem_subscriberChans {ord : RangeOrder} {st : State} {agentID : String} :
    c ∈ st.subscriberChans ord agentID ↔
      ∃ s, st.streams.lookup c = some s ∧ s.isOpen = true ∧ s.agentID = agentID := by
  unfold State.subscriberChans
  rw [ord.mem_visit, List.mem_map]
  constructor
  · rintro ⟨e, he, rfl⟩
    obtain ⟨mem, test⟩ := List.mem_filter.mp he
    simp only [decide_eq_true_eq] at test
    exact ⟨e.2, AList.mem_lookup_iff.mpr mem, test⟩
  · rintro ⟨s, hs, test⟩
    exact ⟨⟨c, s⟩, List.mem_filter.mpr ⟨AList.mem_lookup_iff.mp hs, by simpa using test⟩, rfl⟩

namespace Inv
variable {st : State}

variable {k : Nat}

theorem apply (inv : Inv st) (idle : st.pending k = []) (ord : RangeOrder)
    (desired : GoMap String Specs) (unknown : List String) :
    Inv { st with
      manager := (applyLocked (st.subscriberChans ord) desired unknown ord st.manager).1
      applies := AList.insert k
        (applyLocked (st.subscriberChans ord) desired unknown ord st.manager).2
        st.applies } := by
  set out := applyLocked (st.subscriberChans ord) desired unknown ord st.manager with hout
  set st' : State := { st with manager := out.1, applies := AList.insert k out.2 st.applies }
  have pending : ∀ j, st'.pending j = if j = k then out.2 else st.pending j := fun j =>
    State.pending_insert { st with manager := out.1 } k j out.2
  have fresh : ∀ p ∈ out.2, p.Fresh (st.subscriberChans ord) := fresh_applyLocked ord st.manager
  have calls : ∀ j, ∀ p ∈ st.pending j, ∃ j', p ∈ st'.pending j' := by
    intro j p hp
    have other : j ≠ k := by
      rintro rfl
      simp [idle] at hp
    exact ⟨j, by rw [pending, if_neg other]; exact hp⟩
  refine ⟨fun j p hp c hc => ?_, fun c s hs isOpen => ?_, inv.started⟩
  · rw [pending] at hp
    split at hp
    · rw [(fresh p hp).1] at hc
      obtain ⟨s, hs, -, agent⟩ := mem_subscriberChans.mp hc
      exact ⟨s, hs, agent⟩
    · exact inv.chans j p hp c hc
  · have tracks : Tracks st.manager out := tracks_applyLocked ord st.manager
    rcases tracks s.agentID with ⟨p, hp, agent, specs⟩ | ⟨record, marks⟩
    · -- the push goes to every stream that is open now
      obtain ⟨chans, next, -⟩ := fresh p hp
      refine .inr (.inr (.inr ⟨k, p, by rw [pending, if_pos rfl]; exact hp, agent, specs, .inl ?_⟩))
      rw [next, List.drop_zero, chans]
      exact mem_subscriberChans.mpr ⟨s, hs, isOpen, agent.symm⟩
    · exact (inv.covered c s hs isOpen).of_same rfl rfl record marks calls

variable {p : Push} {rest : List Push}

/-- The end of a push: what was refused everywhere is marked. -/
theorem endPush (inv : Inv st) (current : st.pending k = p :: rest)
    (finished : p.chans[p.next]? = none) :
    Inv { st with
      manager := if p.chans ≠ [] ∧ p.queued = false then st.manager.mark p.agentID else st.manager
      applies := AList.insert k rest st.applies } := by
  set m := if p.chans ≠ [] ∧ p.queued = false then st.manager.mark p.agentID else st.manager with hm
  set st' : State := { st with manager := m, applies := AList.insert k rest st.applies }
  have pending : ∀ j, st'.pending j = if j = k then rest else st.pending j := fun j =>
    State.pending_insert { st with manager := m } k j rest
  have record : ∀ a, st'.recorded a = st.recorded a := by
    intro a
    change m.assignment a = st.manager.assignment a
    rw [hm]
    split <;> rfl
  have marks : ∀ a, a ∈ st.manager.resync → a ∈ m.resync := by
    intro a ha
    rw [hm]
    split <;> simp [ha]
  refine ⟨fun j q hq c hc => ?_, fun c s hs isOpen => ?_, inv.started⟩
  · rw [pending] at hq
    split at hq
    · exact inv.chans k q (by rw [current]; exact List.mem_cons_of_mem _ hq) c hc
    · exact inv.chans j q hq c hc
  · have bound := List.getElem?_eq_none_iff.mp finished
    unfold Covered
    rw [record]
    rcases inv.covered c s hs isOpen with none | same | marked | ⟨j, q, hq, agent, specs, place⟩
    · exact .inl none
    · exact .inr (.inl same)
    · exact .inr (.inr (.inl (marks _ marked)))
    · by_cases here : j = k
      · subst here
        rw [current] at hq
        rcases List.mem_cons.mp hq with rfl | hq
        · -- the finished push itself: all its channels were tried, none took it
          rw [List.drop_eq_nil_of_le bound] at place
          rcases place with place | ⟨refused, place⟩
          · simp at place
          · have nonempty : q.chans ≠ [] := fun empty => by simp [empty] at place
            refine .inr (.inr (.inl ?_))
            change s.agentID ∈ m.resync
            rw [hm, if_pos ⟨nonempty, refused⟩, ← agent]
            simp
        · exact .inr
            (.inr (.inr ⟨j, q, by rw [pending, if_pos rfl]; exact hq, agent, specs, place⟩))
      · exact .inr (.inr (.inr ⟨j, q, by rw [pending, if_neg here]; exact hq, agent, specs, place⟩))

/-- Replacing the current push of one call leaves every other push in place. -/
theorem pending_other {j : Nat} {p' q : Push} (current : st.pending k = p :: rest)
    (hq : q ∈ st.pending j) (other : ¬ (j = k ∧ q = p)) :
    q ∈ if j = k then p' :: rest else st.pending j := by
  by_cases here : j = k
  · subst here
    rw [current] at hq
    rcases List.mem_cons.mp hq with rfl | hq
    · exact absurd ⟨rfl, rfl⟩ other
    · rw [if_pos rfl]
      exact List.mem_cons_of_mem _ hq
  · rw [if_neg here]
    exact hq

theorem mem_drop_succ {l : List Nat} {i d : Nat} (at_i : l[i]? = some d) (other : c ≠ d)
    (hc : c ∈ l.drop i) : c ∈ l.drop (i + 1) := by
  obtain ⟨bound, rfl⟩ := List.getElem?_eq_some_iff.mp at_i
  rw [List.drop_eq_getElem_cons bound] at hc
  exact (List.mem_cons.mp hc).resolve_left other

theorem mem_take_succ {l : List Nat} {i d : Nat} (at_i : l[i]? = some d)
    (hc : c = d ∨ c ∈ l.take i) : c ∈ l.take (i + 1) := by
  obtain ⟨bound, rfl⟩ := List.getElem?_eq_some_iff.mp at_i
  rw [List.take_succ_eq_append_getElem bound, List.mem_append, List.mem_singleton]
  exact hc.symm

theorem newest_of_settled (hs : st.streams.lookup c = some s) (isOpen : s.isOpen = true)
    (settled : st.settled c = true) : s.box.newest = some (st.recorded s.agentID) := by
  simpa [State.settled, hs, isOpen] using settled

variable {c₀ : Nat}

/-- A send that the channel takes. -/
theorem taken (inv : Inv st) {s₀ : Stream} {box : Outbox Specs} (current : st.pending k = p :: rest)
    (next : p.chans[p.next]? = some c₀) (hs₀ : st.streams.lookup c₀ = some s₀)
    (room : s₀.box.offer externalSubscriberBuffer p.specs = some box)
    (fits : p.agentID ∈ st.manager.resync ∨ (p.specs = st.recorded p.agentID ∧
        (p.queued = true ∨ ∀ d ∈ p.chans.take p.next, st.settled d = true)) ∨
      (p.specs ≠ st.recorded p.agentID ∧ (st.closed c₀ = true ∨ st.ahead p.agentID c₀ = true))) :
    Inv { st with
      streams := AList.insert c₀ { s₀ with box } st.streams
      applies := AList.insert k
        ({ p with next := p.next + 1, queued := true } :: rest) st.applies } := by
  set s₁ : Stream := { s₀ with box } with hs₁
  set p' : Push := { p with next := p.next + 1, queued := true } with hp'
  set st' : State := { st with
    streams := AList.insert c₀ s₁ st.streams, applies := AList.insert k (p' :: rest) st.applies }
  have pending : ∀ j, st'.pending j = if j = k then p' :: rest else st.pending j := fun j =>
    State.pending_insert { st with streams := AList.insert c₀ s₁ st.streams } k j (p' :: rest)
  have lookup : ∀ c, st'.streams.lookup c = if c = c₀ then some s₁ else st.streams.lookup c :=
    fun c => GoMap.lookup_insert_if _ _ _ _
  have head : p ∈ st.pending k := by rw [current]; exact List.mem_cons_self
  have agent₀ : s₀.agentID = p.agentID := by
    obtain ⟨s, hs, agent⟩ := inv.chans k p head c₀ (List.mem_of_getElem? next)
    cases hs.symm.trans hs₀
    exact agent
  refine ⟨fun j q hq c hc => ?_, fun c s hs isOpen => ?_, fun c s hs started => ?_⟩
  · have old : ∃ s, st.streams.lookup c = some s ∧ s.agentID = q.agentID := by
      rw [pending] at hq
      split at hq
      · rcases List.mem_cons.mp hq with rfl | hq
        · exact inv.chans k p head c hc
        · exact inv.chans k q (by rw [current]; exact List.mem_cons_of_mem _ hq) c hc
      · exact inv.chans j q hq c hc
    rw [lookup]
    split
    · rename_i same
      obtain ⟨s, hs, agent⟩ := old
      rw [same, hs₀] at hs
      cases hs
      exact ⟨s₁, rfl, agent⟩
    · exact old
  · rw [lookup] at hs
    split at hs
    · -- the receiving stream: its newest assignment is the one just sent
      rename_i same
      subst same
      cases hs
      have newest : s₁.box.newest = some p.specs := Outbox.newest_offer room
      unfold Covered
      rw [newest]
      change _ ∨ some p.specs = some (st.recorded s₀.agentID) ∨ s₀.agentID ∈ st.manager.resync ∨ _
      rw [agent₀]
      rcases fits with marked | ⟨record, -⟩ | ⟨superseded, closed | ahead⟩
      · exact .inr (.inr (.inl marked))
      · exact .inr (.inl (by rw [record]))
      · have shut : s₀.isOpen = false := by simpa [State.closed, hs₀] using closed
        rw [show s₁.isOpen = s₀.isOpen from rfl, shut] at isOpen
        cases isOpen
      · simp only [State.ahead, List.any_eq_true, decide_eq_true_eq] at ahead
        obtain ⟨e, he, q, hq, agent, specs, place⟩ := ahead
        have mem : q ∈ st.pending e.1 := by
          rw [State.pending, AList.mem_lookup_iff.mpr he]
          exact hq
        have other : ¬ (e.1 = k ∧ q = p) := fun same => superseded (same.2 ▸ specs)
        exact .inr (.inr (.inr ⟨e.1, q, by rw [pending]; exact pending_other current mem other,
          agent, specs, .inl place⟩))
    · rename_i elsewhere
      rcases inv.covered c s hs isOpen with none | same | marked | ⟨j, q, hq, agent, specs, place⟩
      · exact .inl none
      · exact .inr (.inl same)
      · exact .inr (.inr (.inl marked))
      · by_cases own : j = k ∧ q = p
        · obtain ⟨rfl, rfl⟩ := own
          rcases place with place | ⟨refused, place⟩
          · exact .inr (.inr (.inr ⟨j, p', by rw [pending, if_pos rfl]; exact List.mem_cons_self,
              agent, specs, .inl (mem_drop_succ next elsewhere place)⟩))
          · -- this push was refused here before: then nobody may take it who makes it count as sent
            rcases fits with marked | ⟨-, taken | settled⟩ | ⟨superseded, -⟩
            · exact .inr (.inr (.inl (agent ▸ marked)))
            · rw [refused] at taken
              cases taken
            · have current := newest_of_settled hs isOpen (settled c place)
              exact .inr (.inl current)
            · exact absurd (agent ▸ specs) superseded
        · exact .inr (.inr (.inr ⟨j, q, by rw [pending]; exact pending_other current hq own,
            agent, specs, place⟩))
  · rw [lookup] at hs
    split at hs
    · cases hs
      rw [show s₁.box.sent = s₀.box.sent from Outbox.sent_offer room]
      exact inv.started c₀ s₀ hs₀ started
    · exact inv.started c s hs started

/-- A send that finds the channel full. -/
theorem refused (inv : Inv st) (current : st.pending k = p :: rest)
    (next : p.chans[p.next]? = some c₀)
    (fits : p.agentID ∈ st.manager.resync ∨ p.specs ≠ st.recorded p.agentID ∨
      p.queued = false ∨ st.settled c₀ = true) :
    Inv { st with applies := AList.insert k ({ p with next := p.next + 1 } :: rest) st.applies } :=
      by
  set p' : Push := { p with next := p.next + 1 } with hp'
  set st' : State := { st with applies := AList.insert k (p' :: rest) st.applies }
  have pending : ∀ j, st'.pending j = if j = k then p' :: rest else st.pending j := fun j =>
    State.pending_insert st k j (p' :: rest)
  have head : p ∈ st.pending k := by rw [current]; exact List.mem_cons_self
  refine ⟨fun j q hq c hc => ?_, fun c s hs isOpen => ?_, inv.started⟩
  · rw [pending] at hq
    split at hq
    · rcases List.mem_cons.mp hq with rfl | hq
      · exact inv.chans k p head c hc
      · exact inv.chans k q (by rw [current]; exact List.mem_cons_of_mem _ hq) c hc
    · exact inv.chans j q hq c hc
  · rcases inv.covered c s hs isOpen with none | same | marked | ⟨j, q, hq, agent, specs, place⟩
    · exact .inl none
    · exact .inr (.inl same)
    · exact .inr (.inr (.inl marked))
    · by_cases own : j = k ∧ q = p
      · obtain ⟨rfl, rfl⟩ := own
        have keep : (c ∈ p'.chans.drop p'.next ∨ p'.queued = false ∧ c ∈ p'.chans.take p'.next) →
            Covered st' c s := fun place => .inr (.inr (.inr
          ⟨j, p', by rw [pending, if_pos rfl]; exact List.mem_cons_self, agent, specs, place⟩))
        rcases place with place | ⟨notQueued, place⟩
        · by_cases here : c = c₀
          · rcases fits with marked | superseded | notQueued | settled
            · exact .inr (.inr (.inl (agent ▸ marked)))
            · exact absurd (agent ▸ specs) superseded
            · exact keep (.inr ⟨notQueued, mem_take_succ next (.inl here)⟩)
            · exact .inr (.inl (newest_of_settled hs isOpen (here ▸ settled)))
          · exact keep (.inl (mem_drop_succ next here place))
        · exact keep (.inr ⟨notQueued, mem_take_succ next (.inr place)⟩)
      · exact .inr (.inr (.inr ⟨j, q, by rw [pending]; exact pending_other current hq own,
          agent, specs, place⟩))

/-- What a step of one stream may do to it. -/
structure Keeps (record : Specs) (s s' : Stream) : Prop where
  agent : s'.agentID = s.agentID
  newest : s'.box.newest = s.box.newest ∨ s'.box.newest = some record
  started : (s.started = true → s.box.sent ≠ []) → s'.started = true → s'.box.sent ≠ []

theorem keeps_sendInitial {record : Specs} (sent : s.sendInitial record = some s') :
    Keeps record s s' := by
  unfold Stream.sendInitial at sent
  split at sent <;> cases sent
  refine ⟨rfl, ?_, fun _ _ => by simp [Outbox.sendNow]⟩
  dsimp only
  rw [Outbox.newest_sendNow]
  split
  · exact .inr rfl
  · exact .inl rfl

theorem keeps_receive (record : Specs) (read : s.receive = some s') : Keeps record s s' := by
  unfold Stream.receive at read
  split at read
  · obtain ⟨box, received, rfl⟩ := Option.map_eq_some_iff.mp read
    exact ⟨rfl, .inl (Outbox.newest_receive received), fun _ _ => Outbox.sent_receive received⟩
  · cases read

theorem keeps_close (record : Specs) (closed : s.close = some s') : Keeps record s s' := by
  cases closed
  exact ⟨rfl, .inl rfl, id⟩

section
variable (inv : Inv st)
include inv

theorem onStream {f : Stream → Option Stream} (moved : st.onStream c₀ f = some st')
    (keeps : ∀ s s', f s = some s' → Keeps (st.recorded s.agentID) s s') : Inv st' := by
  unfold State.onStream at moved
  cases hs₀ : st.streams.lookup c₀ with
  | none => simp [hs₀] at moved
  | some s₀ =>
    cases isOpen₀ : s₀.isOpen with
    | false => simp [hs₀, isOpen₀] at moved
    | true =>
      cases hf : f s₀ with
      | none => simp [hs₀, isOpen₀, hf] at moved
      | some s₁ =>
        obtain rfl : { st with streams := AList.insert c₀ s₁ st.streams } = st' := by
          simpa [hs₀, isOpen₀, hf] using moved
        obtain ⟨agent, newest, started⟩ := keeps s₀ s₁ hf
        have lookup : ∀ c, (AList.insert c₀ s₁ st.streams).lookup c =
            if c = c₀ then some s₁ else st.streams.lookup c :=
              fun c => GoMap.lookup_insert_if _ _ _ _
        refine ⟨fun j q hq c hc => ?_, fun c s hs isOpen => ?_, fun c s hs hstarted => ?_⟩
        · obtain ⟨s, hs, same⟩ := inv.chans j q hq c hc
          dsimp only
          rw [lookup]
          split
          · rename_i here
            rw [here, hs₀] at hs
            cases hs
            exact ⟨s₁, rfl, agent.trans same⟩
          · exact ⟨s, hs, same⟩
        · dsimp only at hs
          rw [lookup] at hs
          split at hs
          · rename_i here
            subst here
            cases hs
            rcases newest with same | record
            · exact (inv.covered c s₀ hs₀ isOpen₀).of_same agent same rfl id fun j q hq => ⟨j, hq⟩
            · exact .inr (.inl (by rw [record, agent]; rfl))
          · exact (inv.covered c s hs isOpen).of_same rfl rfl rfl id fun j q hq => ⟨j, hq⟩
        · dsimp only at hs
          rw [lookup] at hs
          split at hs
          · cases hs
            exact started (inv.started c₀ s₀ hs₀) hstarted
          · exact inv.started c s hs hstarted

theorem subscribe (fresh : c₀ ∉ st.streams) (agentID : String) :
    Inv { st with streams := AList.insert c₀ { agentID } st.streams } := by
  have lookup : ∀ c, (AList.insert c₀ ({ agentID } : Stream) st.streams).lookup c =
      if c = c₀ then some { agentID } else st.streams.lookup c :=
    fun c => GoMap.lookup_insert_if _ _ _ _
  have missing : st.streams.lookup c₀ = none := AList.lookup_eq_none.mpr fresh
  refine ⟨fun j q hq c hc => ?_, fun c s hs isOpen => ?_, fun c s hs started => ?_⟩
  · obtain ⟨s, hs, same⟩ := inv.chans j q hq c hc
    have other : c ≠ c₀ := by
      rintro rfl
      rw [missing] at hs
      cases hs
    exact ⟨s, by rw [lookup, if_neg other]; exact hs, same⟩
  · dsimp only at hs
    rw [lookup] at hs
    split at hs
    · cases hs
      exact .inl rfl
    · exact (inv.covered c s hs isOpen).of_same rfl rfl rfl id fun j q hq => ⟨j, hq⟩
  · dsimp only at hs
    rw [lookup] at hs
    split at hs
    · cases hs
      cases started
    · exact inv.started c s hs started

theorem send (fits : orderly st (.send k) = true) (moved : st.send k = some st') : Inv st' := by
  unfold State.send at moved
  unfold orderly at fits
  cases current : st.pending k with
  | nil => simp [current] at moved
  | cons p rest =>
    cases next : p.chans[p.next]? with
    | none =>
      obtain rfl := Option.some.inj (by simpa [current, next] using moved)
      exact inv.endPush current next
    | some c₀ =>
      simp only [current, next, decide_eq_true_eq] at moved fits
      cases hs₀ : st.streams.lookup c₀ with
      | none => simp [hs₀] at moved
      | some s₀ =>
        simp only [hs₀, Option.map_some, Option.some.injEq] at moved
        cases room : s₀.box.offer externalSubscriberBuffer p.specs with
        | some box =>
          have notFull : st.full c₀ = false := by
            cases full : s₀.box.full externalSubscriberBuffer with
            | false => simp [State.full, hs₀, full]
            | true => simp [Outbox.offer_eq_none.mpr full] at room
          simp only [room] at moved
          subst moved
          refine inv.taken current next hs₀ room (fits.imp_right fun fits => ?_)
          by_cases record : p.specs = st.recorded p.agentID
          · exact .inl ⟨record, by simpa [record, notFull] using fits⟩
          · exact .inr ⟨record, by simpa [record, notFull] using fits⟩
        | none =>
          have isFull : st.full c₀ = true := by
            simpa [State.full, hs₀] using Outbox.offer_eq_none.mp room
          simp only [room] at moved
          subst moved
          refine inv.refused current next (fits.imp_right fun fits => ?_)
          by_cases record : p.specs = st.recorded p.agentID
          · exact .inr (by simpa [record, isFull] using fits)
          · exact .inl record

theorem step {a : Action} (fits : orderly st a = true)
    (moved : External.step st a = some st') : Inv st' := by
  cases a with
  | apply k ord desired unknown =>
    simp only [External.step] at moved
    split at moved <;> cases moved
    rename_i idle
    exact inv.apply (by simpa using idle) ord desired unknown
  | send k => exact inv.send fits moved
  | subscribe c agentID =>
    simp only [External.step] at moved
    split at moved <;> cases moved
    rename_i fresh
    exact inv.subscribe fresh agentID
  | initial c => exact inv.onStream moved fun s s' sent => keeps_sendInitial sent
  | read c => exact inv.onStream moved fun s s' read => keeps_receive _ read
  | unsubscribe c => exact inv.onStream moved fun s s' closed => keeps_close _ closed

theorem delivered (quiet : st.Quiet) : st.Delivered := by
  intro c s hs isOpen started
  have drained := Outbox.newest_drained (quiet.2 c s hs isOpen)
  rcases inv.covered c s hs isOpen with none | same | marked | ⟨k, p, hp, -⟩
  · rw [drained, List.getLast?_eq_none_iff] at none
    exact absurd none (inv.started c s hs started)
  · exact .inl (drained.symm.trans same)
  · refine .inr ⟨marked, fun ord chans desired unknown => ?_⟩
    obtain ⟨p, hp, agent, -⟩ := resync_pushes chans desired unknown ord marked
    exact ⟨p, hp, agent⟩
  · simp [quiet.1 k] at hp

end

end Inv

theorem inv_init : Inv {} := ⟨by simp [State.pending], by simp, by simp⟩

/-- In every run without the two accidents no assignment is lost. -/
theorem delivered_of_orderly (st : State)
    (run : Reaches step (fun st a => orderly st a = true) {} st)
    (quiet : st.Quiet) : st.Delivered :=
  (run.invariant inv_init fun _ _ _ inv fits moved => inv.step fits moved).delivered quiet

/-- One check of one target. -/
def oneCheck (definitionId : String) : Specs :=
  [⟨definitionId, ⟨"web", "host", "192.0.2.1", 443⟩, "tcp", 5000000000, 1000000000, ""⟩]

def put (k : Nat) (specs : Specs) : Action := .apply k .stored (AList.singleton "a" specs) []

/-- Two PUTs around one stream; the second one sends first when `swapped`. -/
def twoPuts (swapped : Bool) : List Action :=
  let order := if swapped then [2, 2, 1, 1] else [1, 1, 2, 2]
  [.subscribe 0 "a", .initial 0, put 1 (oneCheck "old"), put 2 (oneCheck "new")] ++
    order.map .send ++ [.read 0, .read 0]

theorem delivered_of_orderly_twoPuts :
    ∃ st, Reaches step (fun st a => orderly st a = true) {} st ∧ st.Quiet ∧ st.Delivered ∧
      (st.streams.lookup 0).map (fun s => s.box.sent) = some [[], oneCheck "old", oneCheck "new"] :=
        by
  let st := (exec (guarded step fun st a => orderly st a = true) {} (twoPuts false)).get (by decide)
  have run : Reaches step (fun st a => orderly st a = true) {} st :=
    Reaches.of_exec (Option.some_get _).symm
  have quiet : st.Quiet := State.quiet_of_entries (by decide) (by decide)
  exact ⟨st, run, quiet, delivered_of_orderly st run quiet, by decide⟩

/-- The older PUT's send comes last: the stream ends on what the record no longer says, and
nothing is marked. -/
theorem twoPuts_swapped_not_delivered :
    ∃ st, exec step {} (twoPuts true) = some st ∧ st.Quiet ∧ ¬ st.Delivered := by
  let st := (exec step {} (twoPuts true)).get (by decide)
  have quiet : st.Quiet := State.quiet_of_entries (by decide) (by decide)
  refine ⟨st, (Option.some_get _).symm, quiet, fun delivered => ?_⟩
  have stream : st.streams.lookup 0 = some
      { agentID := "a", box := ⟨[], [[], oneCheck "new", oneCheck "old"]⟩, started := true } := by
    decide
  rcases delivered 0 _ stream rfl rfl with last | ⟨marked, -⟩
  · exact absurd last (by decide)
  · exact absurd marked (by decide)

end Kconmon.Controller.External
