import Kconmon.Lib.GoMap
import Kconmon.Lib.Loops
import Kconmon.Lib.Runs

/-!
# The probe scheduler

The scheduler of an agent holds the list of peers it probes. A round copies the list and
its generation; probes of the round, and the traces that failed probes start, come back
whenever they like, and by then the list may have been replaced any number of times. A
result is handed on only if the generation is still the same or the list still has the
peer's node under the peer's zone.
-/
namespace Kconmon.Agent
open Lib

inductive CheckType where
  | tcp
  | udp
  | icmp
  | pmtu
  | dns
  | http
  | mtr
  | external
  deriving DecidableEq

/-- The checkers that run once a round instead of once per peer. -/
def CheckType.nodeLocal : CheckType → Bool
  | .dns | .http | .external => true
  | .tcp | .udp | .icmp | .pmtu | .mtr => false

/-- What a checker is pointed at. -/
structure Target where
  agentID : String
  nodeName : String
  podIP : String := ""
  zone : String := ""
  port : Nat := 0
  udpPort : Nat := 0
  external : Bool := false
  deriving DecidableEq

/-- What a checker measured, as far as the handler looks at it. -/
inductive Details where
  | none
  | tcp
  | udp (packetsRecv : Nat)
  | icmp
  | pmtu (unreachable : Bool)
  | mtr (reached : Bool)
  deriving DecidableEq

structure CheckResult where
  type : CheckType
  success : Bool
  details : Details := .none
  source : String := ""
  destination : String := ""
  sourceZone : String := ""
  destZone : String := ""
  deriving DecidableEq

/-- The agent itself. It does not start without a node name. -/
structure Source extends Target where
  named : nodeName ≠ ""

structure Scheduler where
  source : Source
  peers : List Target := []
  /-- Bumped on every swap of the list. -/
  peerGen : Nat := 0
  /-- Node name to zone; of several entries of one node the last one counts. -/
  peerZones : GoMap String String := ∅

namespace Scheduler

def isSelf (source p : Target) : Bool :=
  p.agentID = source.agentID ∨ (source.nodeName ≠ "" ∧ p.nodeName = source.nodeName) ∨
    (source.podIP ≠ "" ∧ p.podIP = source.podIP)

/-- `ReplacePeers` after its `retire` callback. -/
def replacePeers (peers : List Target) (s : Scheduler) : Scheduler :=
  let filtered := peers.filter fun p => !isSelf s.source.toTarget p
  { s with
    peers := filtered
    peerGen := s.peerGen + 1
    peerZones := filtered.foldl (fun m p => AList.insert p.nodeName p.zone m) ∅ }

def setSourceZone (zone : String) (s : Scheduler) : Scheduler :=
  { s with source := { s.source with zone } }

/-- The list still holds the peer that a probe of generation `gen` was about. -/
def assigned (peer : Target) (gen : Nat) (s : Scheduler) : Bool :=
  s.peerGen = gen ∨ s.peerZones.lookup peer.nodeName = some peer.zone

/-- The result as the handler gets it, unless the peer is gone. -/
def deliverPeer (result : CheckResult) (peer : Target) (gen : Nat) (s : Scheduler) :
    Option CheckResult :=
  if s.assigned peer gen then
    some { result with
      source := s.source.nodeName
      sourceZone := s.source.zone
      destination := peer.nodeName
      destZone := peer.zone }
  else none

def deliverLocal (result : CheckResult) (s : Scheduler) : CheckResult :=
  { result with source := s.source.nodeName, sourceZone := s.source.zone }

end Scheduler

/-! ## Rounds and traces -/

/-- A probe in flight, with what its round copied. -/
structure Probe where
  peer : Target
  gen : Nat

/-- A round of one checker: the probes that have not come back. -/
structure Round where
  checker : CheckType
  probes : List Probe

structure State where
  scheduler : Scheduler
  rounds : GoMap Nat Round := ∅
  traces : GoMap Nat Probe := ∅
  /-- What the handler was given, oldest first. -/
  handed : List CheckResult := []

/-- The check types that start a trace when they fail. -/
def CheckType.traced : CheckType → Bool
  | .dns | .http | .mtr | .external | .pmtu => false
  | .tcp | .udp | .icmp => true

namespace State

def hand (result : CheckResult) (st : State) : State := { st with handed := st.handed ++ [result] }

/-- `triggerMTRAt`; a trace runs when a slot and the pair's cooldown allow it. -/
def triggerMTRAt (probe : Probe) (failed : CheckResult) (trace : Option Nat) (st : State) : State :=
  match trace with
  | some t =>
    if failed.type.traced ∧ t ∉ st.traces then
      { st with traces := AList.insert t probe st.traces }
    else st
  | none => st

/-- The rest of a probe's goroutine once its checker has returned. -/
def complete (probe : Probe) (result : CheckResult) (trace : Option Nat) (st : State) : State :=
  match st.scheduler.deliverPeer result probe.peer probe.gen with
  | none => st
  | some stamped =>
    if result.success then st.hand stamped
    else (st.hand stamped).triggerMTRAt probe stamped trace

end State

inductive Action where
  /-- A round of a peer checker copies the list. -/
  | startRound (r : Nat) (checker : CheckType)
  /-- Probe `i` of the round returns. -/
  | probeDone (r i : Nat) (success : Bool) (details : Details) (trace : Option Nat)
  /-- Probe `i` returns after its round was cancelled. -/
  | probeDropped (r i : Nat)
  | traceDone (t : Nat) (success : Bool) (details : Details)
  /-- A round of a checker that probes no peers. -/
  | localRound (checker : CheckType) (success : Bool) (details : Details)
  | replacePeers (peers : List Target)
  | adoptZone (zone : String)

def step (st : State) : Action → Option State
  | .startRound r checker =>
    if checker.nodeLocal ∨ r ∈ st.rounds then none
    else
      let probes := st.scheduler.peers.map fun peer => ⟨peer, st.scheduler.peerGen⟩
      some { st with rounds := AList.insert r ⟨checker, probes⟩ st.rounds }
  | .probeDone r i success details trace =>
    (st.rounds.lookup r).bind fun round => (round.probes[i]?).map fun probe =>
      let rounds := AList.insert r { round with probes := round.probes.eraseIdx i } st.rounds
      { st with rounds }.complete probe { type := round.checker, success, details } trace
  | .probeDropped r i =>
    (st.rounds.lookup r).map fun round =>
      { st with rounds :=
        AList.insert r { round with probes := round.probes.eraseIdx i } st.rounds }
  | .traceDone t success details =>
    (st.traces.lookup t).map fun probe =>
      let st := { st with traces := st.traces.erase t }
      match st.scheduler.deliverPeer { type := .mtr, success, details } probe.peer probe.gen with
      | none => st
      | some stamped => st.hand stamped
  | .localRound checker success details =>
    if checker.nodeLocal then
      some (st.hand (st.scheduler.deliverLocal { type := checker, success, details }))
    else none
  | .replacePeers peers => some { st with scheduler := st.scheduler.replacePeers peers }
  | .adoptZone zone => some { st with scheduler := st.scheduler.setSourceZone zone }

/-! ## The peer list -/

namespace Scheduler

theorem nodeName_ne_of_mem {peers : List Target} {s : Scheduler} {p : Target}
    (listed : p ∈ (s.replacePeers peers).peers) : p.nodeName ≠ s.source.nodeName := by
  have kept := (List.mem_filter.mp listed).2
  have named := s.source.named
  grind [isSelf]

/-- The zone map lists the last entry of each node. -/
theorem mem_of_peerZones {peers : List Target} {s : Scheduler} {n z : String}
    (found : (s.replacePeers peers).peerZones.lookup n = some z) :
    ∃ p ∈ (s.replacePeers peers).peers, p.nodeName = n ∧ p.zone = z := by
  refine foldl_invariant (I := fun m : GoMap String String => ∀ n z, m.lookup n = some z →
    ∃ p ∈ (s.replacePeers peers).peers, p.nodeName = n ∧ p.zone = z) (by simp) ?_ n z found
  intro m p listed all n z held
  exact GoMap.forall_entry_insert (fun held => all _ _ held) ⟨p, listed, rfl, rfl⟩ held

/-- What every list that `ReplacePeers` installed is like. -/
structure WellFormed (s : Scheduler) : Prop where
  zones : ∀ n z, s.peerZones.lookup n = some z → ∃ p ∈ s.peers, p.nodeName = n ∧ p.zone = z
  others : ∀ p ∈ s.peers, p.nodeName ≠ s.source.nodeName

theorem wellFormed_replacePeers (peers : List Target) (s : Scheduler) :
    (s.replacePeers peers).WellFormed := ⟨fun _ _ => mem_of_peerZones, fun _ => nodeName_ne_of_mem⟩

end Scheduler

/-- A probe of the current generation is about an entry of the list. -/
def Probe.Fits (s : Scheduler) (probe : Probe) : Prop :=
  probe.gen ≤ s.peerGen ∧ (probe.gen = s.peerGen → probe.peer ∈ s.peers)

variable {probe : Probe}

/-- Another list, another generation: no probe in flight is of that one. -/
theorem Probe.Fits.replacePeers {s : Scheduler} (fits : probe.Fits s) (peers : List Target) :
    probe.Fits (s.replacePeers peers) := by
  obtain ⟨le, -⟩ := fits
  exact ⟨Nat.le_succ_of_le le, fun same => absurd same (Nat.ne_of_lt (Nat.lt_succ_of_le le))⟩

structure Inv (st : State) : Prop where
  wellFormed : st.scheduler.WellFormed
  rounds : ∀ r round, st.rounds.lookup r = some round → ∀ p ∈ round.probes, p.Fits st.scheduler
  traces : ∀ t p, st.traces.lookup t = some p → p.Fits st.scheduler

/-- The result is about an entry of the list and this agent as it is now. -/
def Scheduler.Describes (s : Scheduler) (r : CheckResult) : Prop :=
  (∃ p ∈ s.peers, r.destination = p.nodeName ∧ r.destZone = p.zone) ∧
    r.source = s.source.nodeName ∧ r.sourceZone = s.source.zone ∧ r.destination ≠ s.source.nodeName

theorem Scheduler.WellFormed.describes {s : Scheduler} (wf : s.WellFormed) (fits : probe.Fits s)
    {result stamped : CheckResult}
    (delivered : s.deliverPeer result probe.peer probe.gen = some stamped) :
    s.Describes stamped := by
  unfold deliverPeer at delivered
  split at delivered <;> cases delivered
  rename_i still
  have entry : ∃ p ∈ s.peers, p.nodeName = probe.peer.nodeName ∧ p.zone = probe.peer.zone := by
    rcases of_decide_eq_true still with same | found
    · exact ⟨probe.peer, fits.2 same.symm, rfl, rfl⟩
    · exact wf.zones _ _ found
  obtain ⟨p, listed, name, zone⟩ := entry
  exact ⟨⟨p, listed, name.symm, zone.symm⟩, rfl, rfl, name ▸ wf.others p listed⟩

/-! ## Steps -/

/-- What one step can do besides moving probes: hand over one result. -/
inductive Hands (s : Scheduler) (log : List CheckResult) : List CheckResult → Prop
  | nothing : Hands s log log
  | peer {probe : Probe} {result stamped : CheckResult} (fits : probe.Fits s)
      (delivered : s.deliverPeer result probe.peer probe.gen = some stamped) :
      Hands s log (log ++ [stamped])

structure Completed (st : State) (probe : Probe) (st' : State) : Prop where
  scheduler : st'.scheduler = st.scheduler
  rounds : st'.rounds = st.rounds
  traces : ∀ t p, st'.traces.lookup t = some p → st.traces.lookup t = some p ∨ p = probe
  handed : probe.Fits st.scheduler → Hands st.scheduler st.handed st'.handed

variable {st : State}

theorem State.traces_triggerMTRAt {p : Probe} {failed : CheckResult} {trace : Option Nat} {t : Nat}
    (held : (st.triggerMTRAt probe failed trace).traces.lookup t = some p) :
    st.traces.lookup t = some p ∨ p = probe := by
  unfold triggerMTRAt at held
  split at held
  · split at held
    · rw [GoMap.lookup_insert_if] at held
      grind
    · exact .inl held
  · exact .inl held

theorem State.triggerMTRAt_kept (probe : Probe) (failed : CheckResult) (trace : Option Nat)
    (st : State) : (st.triggerMTRAt probe failed trace).scheduler = st.scheduler ∧
      (st.triggerMTRAt probe failed trace).rounds = st.rounds ∧
      (st.triggerMTRAt probe failed trace).handed = st.handed := by
  unfold triggerMTRAt
  split
  · split <;> exact ⟨rfl, rfl, rfl⟩
  · exact ⟨rfl, rfl, rfl⟩

theorem State.completed (probe : Probe) (result : CheckResult) (trace : Option Nat) (st : State) :
    Completed st probe (st.complete probe result trace) := by
  unfold complete
  split
  · exact ⟨rfl, rfl, fun _ _ => .inl, fun _ => .nothing⟩
  · rename_i stamped delivered
    split
    · exact ⟨rfl, rfl, fun _ _ => .inl, fun fits => .peer fits delivered⟩
    · obtain ⟨scheduler, rounds, handed⟩ := (st.hand stamped).triggerMTRAt_kept probe stamped trace
      refine ⟨scheduler, rounds, fun t p held => ?_, fun fits => ?_⟩
      · have known := traces_triggerMTRAt held
        exact known
      · rw [handed]
        exact .peer fits delivered

theorem Inv.eraseProbe (inv : Inv st) {r : Nat} {round : Round}
    (held : st.rounds.lookup r = some round) (i : Nat) : Inv { st with
      rounds := AList.insert r { round with probes := round.probes.eraseIdx i } st.rounds } where
  wellFormed := inv.wellFormed
  rounds r' round' found := by
    refine GoMap.forall_insert (P := fun round => ∀ p ∈ round.probes, p.Fits st.scheduler)
      (fun found => inv.rounds _ _ found) (fun p listed => ?_) found
    exact inv.rounds r round held p (List.mem_of_mem_eraseIdx listed)
  traces := inv.traces

variable {st' : State}

theorem Inv.complete (inv : Inv st) (fits : probe.Fits st.scheduler)
    (done : Completed st probe st') : Inv st' where
  wellFormed := done.scheduler ▸ inv.wellFormed
  rounds := by
    rw [done.rounds, done.scheduler]
    exact inv.rounds
  traces t p held := by
    rw [done.scheduler]
    rcases done.traces t p held with old | rfl
    · exact inv.traces t p old
    · exact fits

theorem Inv.step (inv : Inv st) {a : Action} (taken : step st a = some st') : Inv st' := by
  cases a with
  | startRound r checker =>
    simp only [Agent.step] at taken
    split at taken <;> cases taken
    refine ⟨inv.wellFormed, fun r' round found => ?_, inv.traces⟩
    refine GoMap.forall_insert (P := fun round => ∀ p ∈ round.probes, p.Fits st.scheduler)
      (fun found => inv.rounds _ _ found) (fun p listed => ?_) found
    obtain ⟨peer, mem, rfl⟩ := List.mem_map.mp listed
    exact ⟨Nat.le_refl _, fun _ => mem⟩
  | probeDone r i success details trace =>
    obtain ⟨round, held, taken⟩ := Option.bind_eq_some_iff.mp taken
    obtain ⟨probe, listed, rfl⟩ := Option.map_eq_some_iff.mp taken
    have fits := inv.rounds r round held probe (List.mem_of_getElem? listed)
    exact (inv.eraseProbe held i).complete fits (State.completed probe _ trace _)
  | probeDropped r i =>
    obtain ⟨round, held, rfl⟩ := Option.map_eq_some_iff.mp taken
    exact inv.eraseProbe held i
  | traceDone t success details =>
    obtain ⟨probe, held, rfl⟩ := Option.map_eq_some_iff.mp taken
    have erased : Inv { st with traces := st.traces.erase t } :=
      ⟨inv.wellFormed, inv.rounds, fun t' p found =>
        GoMap.forall_erase (P := fun p => p.Fits st.scheduler)
          (fun found => inv.traces _ _ found) found⟩
    dsimp only
    split <;> exact ⟨erased.wellFormed, erased.rounds, erased.traces⟩
  | localRound checker success details =>
    simp only [Agent.step] at taken
    split at taken <;> cases taken
    exact ⟨inv.wellFormed, inv.rounds, inv.traces⟩
  | replacePeers peers =>
    cases taken
    exact ⟨Scheduler.wellFormed_replacePeers peers _,
      fun r round found p listed => (inv.rounds r round found p listed).replacePeers peers,
      fun t p found => (inv.traces t p found).replacePeers peers⟩
  | adoptZone zone =>
    cases taken
    exact ⟨⟨inv.wellFormed.zones, inv.wellFormed.others⟩, inv.rounds, inv.traces⟩

/-- A step hands over nothing, a peer's result, or the result of a local round. -/
theorem Inv.hands (inv : Inv st) {a : Action} (taken : Agent.step st a = some st') :
    Hands st.scheduler st.handed st'.handed ∨
      ∃ checker success details, a = .localRound checker success details ∧
        checker.nodeLocal = true ∧ st'.handed =
          st.handed ++ [st.scheduler.deliverLocal { type := checker, success, details }] := by
  cases a with
  | startRound r checker =>
    simp only [Agent.step] at taken
    split at taken <;> cases taken
    exact .inl .nothing
  | probeDone r i success details trace =>
    obtain ⟨round, held, taken⟩ := Option.bind_eq_some_iff.mp taken
    obtain ⟨probe, listed, rfl⟩ := Option.map_eq_some_iff.mp taken
    have fits := inv.rounds r round held probe (List.mem_of_getElem? listed)
    have done := State.completed probe { type := round.checker, success, details } trace
      { st with rounds :=
        AList.insert r { round with probes := round.probes.eraseIdx i } st.rounds }
    exact .inl (done.handed fits)
  | probeDropped r i =>
    obtain ⟨round, held, rfl⟩ := Option.map_eq_some_iff.mp taken
    exact .inl .nothing
  | traceDone t success details =>
    obtain ⟨probe, held, rfl⟩ := Option.map_eq_some_iff.mp taken
    dsimp only
    split
    · exact .inl .nothing
    · rename_i delivered
      exact .inl (.peer (inv.traces t probe held) delivered)
  | localRound checker success details =>
    simp only [Agent.step] at taken
    split at taken <;> cases taken
    rename_i nodeLocal
    exact .inr ⟨checker, success, details, rfl, nodeLocal, rfl⟩
  | replacePeers peers =>
    cases taken
    exact .inl .nothing
  | adoptZone zone =>
    cases taken
    exact .inl .nothing

/-- An agent that has not been given any peers. -/
def initial (source : Source) : State where
  scheduler := { source }

theorem inv_initial (source : Source) : Inv (initial source) :=
  ⟨⟨by simp [initial], by simp [initial]⟩, by simp [initial], by simp [initial]⟩

/-- Whatever the interleaving: a step that hands the handler a result of a probe or a trace hands
one whose destination node and zone are those of an entry of the peer list at that moment, and
whose source is this agent with its zone at that moment. A round that probes no peers hands over
a result without a destination. No result names the agent's own node. -/
theorem handed_current (source : Source) (st st' : State) (a : Action) (r : CheckResult)
    (run : Reaches step (fun _ _ => True) (initial source) st) (taken : step st a = some st')
    (handed : st'.handed = st.handed ++ [r]) :
    r.sourceZone = st.scheduler.source.zone ∧ r.destination ≠ st.scheduler.source.nodeName ∧
      ((∃ p ∈ st.scheduler.peers, r.destination = p.nodeName ∧ r.destZone = p.zone) ∨
        (∃ checker success details, a = .localRound checker success details) ∧
          r.destination = "") := by
  have inv : Inv st := run.invariant (inv_initial source) fun _ _ _ inv _ => inv.step
  rcases inv.hands taken with hands | ⟨checker, success, details, rfl, -, own⟩
  · generalize st'.handed = log at hands handed
    cases hands with
    | nothing => simp at handed
    | peer fits delivered =>
      obtain rfl : _ = r := by simpa using handed
      obtain ⟨entry, -, zone, other⟩ := inv.wellFormed.describes fits delivered
      exact ⟨zone, other, .inl entry⟩
  · obtain rfl : _ = r := by simpa using own.symm.trans handed
    exact ⟨rfl, st.scheduler.source.named.symm, .inr ⟨⟨checker, success, details, rfl⟩, rfl⟩⟩

/-- Two lists, the second naming one node twice; a probe of the first list comes back after the
second was installed. -/
def lateProbe : List Action :=
  [.replacePeers [{ agentID := "b", nodeName := "n2", zone := "z1" },
      { agentID := "a", nodeName := "n1" }], .startRound 0 .tcp, .adoptZone "z9",
    .replacePeers [{ agentID := "c", nodeName := "n2", zone := "z2" },
      { agentID := "b", nodeName := "n2", zone := "z1" }]]

theorem handed_current_lateProbe : ∃ st st' r,
    step st (.probeDone 0 0 false .none none) = some st' ∧ st'.handed = st.handed ++ [r] ∧
      r.sourceZone = "z9" ∧
      ∃ p ∈ st.scheduler.peers, r.destination = p.nodeName ∧ r.destZone = p.zone := by
  let source : Source := ⟨{ agentID := "a", nodeName := "n1", podIP := "10.0.0.1" }, by decide⟩
  let st := (exec (guarded step fun _ _ => True) (initial source) lateProbe).get (by decide)
  have run : Reaches step (fun _ _ => True) (initial source) st :=
    Reaches.of_exec (Option.some_get _).symm
  let st' := (step st (.probeDone 0 0 false .none none)).get (by decide)
  have taken : step st (.probeDone 0 0 false .none none) = some st' := (Option.some_get _).symm
  obtain ⟨r, handed⟩ : ∃ r, st'.handed = st.handed ++ [r] :=
    ⟨⟨.tcp, false, .none, "n1", "n2", "z9", "z1"⟩, by decide⟩
  obtain ⟨zone, -, entry⟩ := handed_current source st st' _ r run taken handed
  refine ⟨st, st', r, taken, handed, zone.trans (by decide), entry.resolve_right ?_⟩
  rintro ⟨⟨checker, success, details, other⟩, -⟩
  cases other

end Kconmon.Agent
