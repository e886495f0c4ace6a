import Kconmon.Controller.Broadcast

/-!
# The fan-out converges to the newest mesh

A flush releases its lock between taking a snapshot and broadcasting it, so an
older flush may broadcast last. In a run where no flush does, every watcher that
is not marked desynced ends on the peers of the newest scheduled snapshot under
the plan in force.
-/
namespace Kconmon.Controller.Broadcast
open Lib Model Meshplan

/-! ## What peers see of the registry -/

/-- The agents of a registry as peer lists show them. -/
def peersOf (r : Registry) : Peers := r.snapshotLocked.map peerToProto

theorem peersOf_perm {r r' : Registry}
    (same : ∀ id, (r.agents.lookup id).map (fun a => peerToProto a.info) =
      (r'.agents.lookup id).map fun a => peerToProto a.info) : (peersOf r).Perm (peersOf r') := by
  unfold peersOf Registry.snapshotLocked
  rw [List.map_map, List.map_map]
  exact GoMap.perm_values (fun a : RegisteredAgent => peerToProto a.info) same

theorem getPeers_eq {r : Registry} (keyed : r.Keyed) (agentID : String) :
    (r.getPeers agentID).map peerToProto = (peersOf r).filter fun m => m.id ≠ agentID := by
  unfold peersOf Registry.getPeers Registry.snapshotLocked
  rw [List.map_map, List.map_map, List.filter_map]
  congr 1
  refine List.filter_congr fun e he => ?_
  have key : e.2.info.id = e.1 := keyed e.1 e.2 (AList.mem_lookup_iff.mpr he)
  simp [peerToProto, key]

theorem peersFor_eq (plan : Option Plan) (agentID : String) (agents : List AgentInfo) :
    peersFor plan agentID agents =
      (agents.map peerToProto).filter fun m => m.id ≠ agentID ∧ planned plan agentID m.id := by
  rw [peersFor, List.filter_map]
  rfl

theorem filterPeersByPlan_map (plan : Option Plan) (agentID : String) (peers : List AgentInfo) :
    (filterPeersByPlan plan agentID peers).map peerToProto =
      (peers.map peerToProto).filter fun m => planned plan agentID m.id := by
  rw [filterPeersByPlan, List.filter_map]
  rfl

theorem heartbeat_lookup (r : Registry) (agentID : String) (now : Int) (id : String) :
    ((r.heartbeat agentID now).1.agents.lookup id).map (fun a => peerToProto a.info) =
      (r.agents.lookup id).map fun a => peerToProto a.info := by
  unfold Registry.heartbeat
  cases ha : r.agents.lookup agentID with
  | none => rfl
  | some a =>
    simp only [GoMap.lookup_insert_if]
    split
    · rename_i same
      subst same
      simp [ha, peerToProto]
    · rfl

/-! ## The invariant -/

namespace State

/-- Nothing is on its way that would carry the newest scheduled snapshot. -/
def Fresh (st : State) : Prop := st.changing = none ∧ st.broadcastArmed = false ∧
    ∀ k agents, st.flushes.lookup k = some agents → agents ≠ st.scheduled

/-- No change is inside its callbacks and no flush is armed or in progress. -/
def Quiet (st : State) : Prop :=
  st.changing = none ∧ st.broadcastArmed = false ∧ ∀ k, st.flushes.lookup k = none

/-- The last update of every synchronised watcher lists the peers that the newest scheduled
snapshot and the plan in force give its agent. -/
def Converged (st : State) : Prop := ∀ w s, st.watchers.lookup w = some s → s.desynced = false →
    ∀ u, s.box.newest = some u → u.Perm (peersFor st.plan s.agentID st.scheduled)

end State

/-- A flush broadcasts the newest scheduled snapshot, or a newer one is on its way. -/
def orderly (st : State) : Action → Bool
  | .broadcast k =>
    match st.flushes.lookup k with
    | none => true
    | some agents => agents = st.scheduled ∨ st.changing ≠ none ∨ st.broadcastArmed ∨
        ∃ e ∈ st.flushes.entries, e.1 ≠ k ∧ e.2 = st.scheduled
  | _ => true

/-- A watcher that is, or will be by its own first update, on the newest mesh. -/
structure Good (plan : Option Plan) (scheduled : List AgentInfo) (s : Watcher) : Prop where
  newest : ∀ u, s.box.newest = some u → u.Perm (peersFor plan s.agentID scheduled)
  first : s.started = false → s.box.queue = [] → ∀ peers, s.read = some peers →
    (peers.map peerToProto).Perm ((scheduled.map peerToProto).filter fun m => m.id ≠ s.agentID)

structure Inv (st : State) : Prop where
  keyed : st.registry.Keyed
  view : (peersOf st.registry).Perm
    ((st.changing.elim st.scheduled Change.agents).map peerToProto)
  pending : st.broadcastArmed = true → st.pendingPeers = st.scheduled
  good : st.Fresh → ∀ w s, st.watchers.lookup w = some s → s.desynced = false →
    Good st.plan st.scheduled s

namespace Inv
variable {st : State}

theorem change (inv : Inv st) (op : Op) (free : st.changing = none) :
    Inv { st with
      registry := (st.registry.apply op).1
      changing := (st.registry.apply op).2.map fun p => .planning p.agents } := by
  have keyed := Registry.keyed_apply inv.keyed op
  cases published : (st.registry.apply op).2 with
  | none =>
    refine ⟨keyed, ?_, inv.pending, fun fresh => inv.good ⟨free, fresh.2⟩⟩
    have same : (peersOf (st.registry.apply op).1).Perm (peersOf st.registry) :=
      peersOf_perm fun id => by rw [Registry.lookup_of_unpublished published]
    have view := inv.view
    rw [free] at view
    exact same.trans view
  | some p =>
    refine ⟨keyed, ?_, inv.pending, fun fresh => by cases fresh.1⟩
    change (peersOf (st.registry.apply op).1).Perm (p.agents.map peerToProto)
    rw [Registry.agents_of_published published]
    exact List.Perm.refl _

theorem heartbeat (inv : Inv st) (agentID : String) (now : Int) :
    Inv { st with registry := (st.registry.heartbeat agentID now).1 } :=
  ⟨Registry.keyed_heartbeat inv.keyed agentID now,
    (peersOf_perm (heartbeat_lookup st.registry agentID now)).trans inv.view, inv.pending, inv.good⟩

variable {agents : List AgentInfo}

section
variable (inv : Inv st)
include inv

theorem setPeerPlan (plan : Option Plan)
    (stage : st.changing = some (.planning agents)) :
    Inv { st with plan, changing := some (.scheduling agents) } := by
  refine ⟨inv.keyed, ?_, inv.pending, fun fresh => by cases fresh.1⟩
  have view := inv.view
  rw [stage] at view
  exact view

theorem schedulePeerBroadcast (stage : st.changing = some (.scheduling agents)) :
    Inv { st with
      changing := none, scheduled := agents, pendingPeers := agents, broadcastArmed := true } := by
  refine ⟨inv.keyed, ?_, fun _ => rfl, fun fresh => by cases fresh.2.1⟩
  have view := inv.view
  rw [stage] at view
  exact view

theorem takePending {k : Nat} (armed : st.broadcastArmed = true) :
    Inv { st with
      flushes := AList.insert k st.pendingPeers st.flushes, pendingPeers := []
      broadcastArmed := false } := by
  refine ⟨inv.keyed, inv.view, fun h => by simp at h, fun fresh => ?_⟩
  -- the flush now holds the newest snapshot
  exact absurd (inv.pending armed) (fresh.2.2 k _ (AList.lookup_insert _))

theorem broadcast {k : Nat} (held : st.flushes.lookup k = some agents)
    (fits : orderly st (.broadcast k) = true) :
    Inv { st with
      flushes := st.flushes.erase k
      watchers := st.watchers.mapValues (Watcher.update st.plan agents) } := by
  refine ⟨inv.keyed, inv.view, inv.pending, fun fresh w s hs synced => ?_⟩
  simp only [orderly, held, decide_eq_true_eq] at fits
  have newest : agents = st.scheduled := by
    rcases fits with same | busy | armed | ⟨e, he, other, same⟩
    · exact same
    · exact absurd fresh.1 busy
    · exact absurd fresh.2.1 (by simp [armed])
    · refine absurd same (fresh.2.2 e.1 e.2 ?_)
      change (st.flushes.erase k).lookup e.1 = some e.2
      rw [AList.lookup_erase_ne other]
      exact AList.mem_lookup_iff.mpr he
  change (st.watchers.mapValues (Watcher.update st.plan agents)).lookup w = some s at hs
  rw [GoMap.lookup_mapValues, Option.map_eq_some_iff] at hs
  obtain ⟨s₀, -, rfl⟩ := hs
  unfold Watcher.update at synced ⊢
  cases taken : s₀.box.offer peerWatcherBuffer (peersFor st.plan s₀.agentID agents) with
  | none => simp [taken] at synced
  | some box =>
    refine ⟨fun u hu => ?_, fun _ empty => absurd empty (Outbox.queue_offer taken)⟩
    dsimp only at hu
    rw [Outbox.newest_offer taken] at hu
    rw [← Option.some.inj hu, newest]

theorem watch (w : Nat) (agentID : String) :
    Inv { st with watchers := AList.insert w { agentID } st.watchers } := by
  refine ⟨inv.keyed, inv.view, inv.pending, fun fresh v s hs synced => ?_⟩
  dsimp only at hs
  rw [GoMap.lookup_insert_if] at hs
  split at hs
  · cases hs
    exact ⟨fun u hu => by simp [Outbox.newest] at hu, fun _ _ peers read => by simp at read⟩
  · exact inv.good fresh v s hs synced

theorem unwatch (w : Nat) : Inv { st with watchers := st.watchers.erase w } := by
  refine ⟨inv.keyed, inv.view, inv.pending, fun fresh v s hs synced => ?_⟩
  dsimp only at hs
  rw [GoMap.lookup_erase_if] at hs
  split at hs
  · cases hs
  · exact inv.good fresh v s hs synced

/-- A step of one watcher that keeps it good. -/
theorem onWatcher {w : Nat} {f : Watcher → Option Watcher} {st' : State}
    (moved : st.onWatcher w f = some st')
    (synced : ∀ s s', f s = some s' → s'.desynced = s.desynced)
    (keep : ∀ s s', f s = some s' → st.Fresh → Good st.plan st.scheduled s →
      Good st.plan st.scheduled s') : Inv st' := by
  unfold State.onWatcher at moved
  cases hs₀ : st.watchers.lookup w with
  | none => simp [hs₀] at moved
  | some s₀ =>
    cases hf : f s₀ with
    | none => simp [hs₀, hf] at moved
    | some s₁ =>
      obtain rfl : { st with watchers := AList.insert w s₁ st.watchers } = st' := by
        simpa [hs₀, hf] using moved
      refine ⟨inv.keyed, inv.view, inv.pending, fun fresh v s hs alive => ?_⟩
      dsimp only at hs
      rw [GoMap.lookup_insert_if] at hs
      split at hs
      · cases hs
        exact keep s₀ s₁ hf fresh (inv.good fresh w s₀ hs₀ (synced s₀ s₁ hf ▸ alive))
      · exact inv.good fresh v s hs alive

end

variable {s : Watcher}

/-- The registry read of a fresh state shows the newest scheduled snapshot. -/
theorem good_readPeers (inv : Inv st) (fresh : st.Fresh) (good : Good st.plan st.scheduled s) :
    Good st.plan st.scheduled { s with read := some (st.registry.getPeers s.agentID) } := by
  refine ⟨good.newest, fun _ _ peers read => ?_⟩
  cases read
  rw [getPeers_eq inv.keyed]
  have view := inv.view
  rw [fresh.1] at view
  exact view.filter _

theorem good_sendInitial {plan : Option Plan} {scheduled : List AgentInfo} {peers : List AgentInfo}
    (good : Good plan scheduled s) (waiting : s.started = false) (read : s.read = some peers) :
    Good plan scheduled { s with
      started := true
      box := s.box.sendNow ((filterPeersByPlan plan s.agentID peers).map peerToProto) } := by
  refine ⟨fun u hu => ?_, fun started => by cases started⟩
  dsimp only at hu
  rw [Outbox.newest_sendNow] at hu
  split at hu
  · rename_i empty
    cases hu
    rw [filterPeersByPlan_map, peersFor_eq]
    have filtered :=
      (good.first waiting empty peers read).filter fun m => planned plan s.agentID m.id
    rw [List.filter_filter] at filtered
    refine filtered.trans (List.Perm.of_eq (List.filter_congr fun m _ => ?_))
    simp [Bool.and_comm]
  · exact good.newest u hu

theorem good_pump {plan : Option Plan} {scheduled : List AgentInfo} {box : Outbox Peers}
    (good : Good plan scheduled s) (started : s.started = true)
    (received : s.box.receive = some box) : Good plan scheduled { s with box } := by
  refine ⟨fun u hu => ?_, fun waiting => by simp [started] at waiting⟩
  dsimp only at hu
  rw [Outbox.newest_receive received] at hu
  exact good.newest u hu

theorem step {planner : List AgentInfo → Option Plan} (inv : Inv st) {a : Action} {st' : State}
    (fits : orderly st a = true) (moved : Broadcast.step planner st a = some st') : Inv st' := by
  cases a with
  | change op =>
    simp only [Broadcast.step] at moved
    split at moved <;> cases moved
    rename_i free
    exact inv.change op (by simpa using free)
  | heartbeat agentID now =>
    cases moved
    exact inv.heartbeat agentID now
  | setPeerPlan =>
    simp only [Broadcast.step] at moved
    split at moved <;> cases moved
    rename_i agents stage
    exact inv.setPeerPlan (planner agents) stage
  | schedulePeerBroadcast =>
    simp only [Broadcast.step] at moved
    split at moved <;> cases moved
    rename_i agents stage
    exact inv.schedulePeerBroadcast stage
  | takePending k =>
    simp only [Broadcast.step] at moved
    split at moved <;> cases moved
    rename_i ready
    push Not at ready
    exact inv.takePending (by simpa using ready.1)
  | broadcast k =>
    obtain ⟨agents, held, rfl⟩ := Option.map_eq_some_iff.mp moved
    exact inv.broadcast held fits
  | watch w agentID =>
    simp only [Broadcast.step] at moved
    split at moved <;> cases moved
    exact inv.watch w agentID
  | readPeers w =>
    refine inv.onWatcher moved (fun s s' hf => ?_) (fun s s' hf fresh good => ?_)
    · split at hf <;> cases hf
      rfl
    · split at hf <;> cases hf
      exact inv.good_readPeers fresh good
  | sendInitial w =>
    refine inv.onWatcher moved (fun s s' hf => ?_) (fun s s' hf fresh good => ?_)
    · split at hf
      · cases hf
      · obtain ⟨peers, -, rfl⟩ := Option.map_eq_some_iff.mp hf
        rfl
    · split at hf
      · cases hf
      · rename_i waiting
        obtain ⟨peers, read, rfl⟩ := Option.map_eq_some_iff.mp hf
        exact good_sendInitial good (by simpa using waiting) read
  | pump w =>
    refine inv.onWatcher moved (fun s s' hf => ?_) (fun s s' hf fresh good => ?_)
    · split at hf
      · obtain ⟨box, -, rfl⟩ := Option.map_eq_some_iff.mp hf
        rfl
      · cases hf
    · split at hf
      · rename_i started
        obtain ⟨box, received, rfl⟩ := Option.map_eq_some_iff.mp hf
        exact good_pump good started received
      · cases hf
  | unwatch w =>
    cases moved
    exact inv.unwatch w

end Inv

def initial (ttl : Int) : State := { registry := ⟨∅, ttl⟩ }

theorem inv_initial (ttl : Int) : Inv (initial ttl) :=
  ⟨fun id a ha => by simp [initial] at ha, List.Perm.refl _, fun h => by simp [initial] at h,
    fun _ w s hs => by simp [initial] at hs⟩

/-- In every run in which no flush broadcasts after a newer one, the fan-out converges. -/
theorem converged_of_orderly (planner : List AgentInfo → Option Plan) (ttl : Int) (st : State)
    (run : Reaches (step planner) (fun st a => orderly st a = true) (initial ttl) st)
    (quiet : st.Quiet) : st.Converged := by
  have inv : Inv st :=
    run.invariant (inv_initial ttl) fun _ _ _ inv fits moved => inv.step fits moved
  have fresh : st.Fresh :=
    ⟨quiet.1, quiet.2.1, fun k agents held => by rw [quiet.2.2 k] at held; cases held⟩
  exact fun w s hs synced => (inv.good fresh w s hs synced).newest

/-- A registry change taken through its callbacks, up to the flush `k` that takes its snapshot. -/
def changeAndTake (k : Nat) (id : String) : List Action :=
  [.change (.register none 0 { id, nodeName := id, zone := "z" }), .setPeerPlan,
   .schedulePeerBroadcast, .takePending k]

/-- One watcher and two agents that register one after the other; the flushes broadcast in
the given order. -/
def twoFlushes (order : List Nat) : List Action :=
  [.watch 0 "a", .readPeers 0, .sendInitial 0] ++ changeAndTake 1 "b" ++ changeAndTake 2 "c" ++
    order.map .broadcast ++ [.pump 0, .pump 0]

def fullMesh : List AgentInfo → Option Plan := meshPlanner .stored ⟨"full", 2, 1, 0⟩

theorem State.quiet_of_entries {st : State} (idle : st.changing = none ∧ st.broadcastArmed = false)
    (flushed : st.flushes.entries = []) : st.Quiet :=
  ⟨idle.1, idle.2, GoMap.lookup_of_entries_nil flushed⟩

theorem converged_of_orderly_twoFlushes :
    ∃ st, Reaches (step fullMesh) (fun st a => orderly st a = true) (initial 60) st ∧ st.Quiet ∧
      st.Converged ∧ (st.watchers.lookup 0).map (fun s => s.box.sent.map (·.map PeerMeta.id)) =
        some [[], ["b"], ["c", "b"]] := by
  let st := (exec (guarded (step fullMesh) fun st a => orderly st a = true) (initial 60)
    (twoFlushes [1, 2])).get (by decide)
  have run : Reaches (step fullMesh) (fun st a => orderly st a = true) (initial 60) st :=
    Reaches.of_exec (Option.some_get _).symm
  have quiet : st.Quiet := State.quiet_of_entries (by decide) (by decide)
  exact ⟨st, run, quiet, converged_of_orderly fullMesh 60 st run quiet, by decide⟩

/-- The flush that took the older snapshot broadcasts last: the watcher ends on a mesh without
the agent that registered second. -/
theorem twoFlushes_swapped_not_converged :
    ∃ st, exec (step fullMesh) (initial 60) (twoFlushes [2, 1]) = some st ∧ st.Quiet ∧
      ¬ st.Converged := by
  let st := (exec (step fullMesh) (initial 60) (twoFlushes [2, 1])).get (by decide)
  have quiet : st.Quiet := State.quiet_of_entries (by decide) (by decide)
  refine ⟨st, (Option.some_get _).symm, quiet, fun converged => ?_⟩
  obtain ⟨s, hs, synced, last, two⟩ : ∃ s, st.watchers.lookup 0 = some s ∧ s.desynced = false ∧
      s.box.newest = some [peerToProto { id := "b", nodeName := "b", zone := "z" }] ∧
      (peersFor st.plan s.agentID st.scheduled).length = 2 :=
    ⟨(st.watchers.lookup 0).get (by decide), by decide, by decide, by decide, by decide⟩
  rw [← (converged 0 s hs synced _ last).length_eq] at two
  simp at two

end Kconmon.Controller.Broadcast
