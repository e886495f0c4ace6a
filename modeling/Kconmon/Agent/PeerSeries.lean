import Kconmon.Agent.Metrics

/-!
# The series follow the peer list

What is retired at a change of the peer list is the difference between the current list,
which holds no entry of this agent itself, and the next one as it came. A run in which
no next list hides a peer behind an entry that is dropped later, and no node leaves with
several zones, has the series of the current list and of recently departed peers only.
-/
namespace Kconmon.Agent
open Lib

/-! ## What the loops over the lists do -/

namespace Metrics

/-- Every gauge is of a pair with `G`, every counter of a pair with `C`. -/
def All (G C : Pair → Prop) (m : Metrics) : Prop :=
  (∀ s ∈ m.gauges, G s.2) ∧ ∀ s ∈ m.counters, C s.2

section
variable {G C : Pair → Prop} {m : Metrics} {pair : Pair}

theorem All.set (all : m.All G C) (g : Gauge) (ok : G pair) : (m.set g pair).All G C := by
  refine ⟨fun s listed => ?_, all.2⟩
  rcases List.mem_insert_iff.mp listed with rfl | old
  · exact ok
  · exact all.1 s old

theorem All.add (all : m.All G C) (c : Counter) (ok : C pair) : (m.add c pair).All G C := by
  refine ⟨all.1, fun s listed => ?_⟩
  rcases List.mem_insert_iff.mp listed with rfl | old
  · exact ok
  · exact all.2 s old

theorem All.delete (all : m.All G C) (g : Gauge) : (m.delete g pair).All G C :=
  ⟨fun s listed => all.1 s (List.mem_of_mem_filter listed), all.2⟩

/-- A result writes series of its own pair only. -/
theorem All.record (all : m.All G C) {r : CheckResult} (gauge : G r.pair) (counter : C r.pair) :
    (record m r).All G C := by
  unfold Agent.record
  split
  · refine All.add ?_ _ counter
    dsimp only
    split
    · split
      · exact (all.add _ counter).add _ counter
      · exact all.add _ counter
    · exact all
  · refine All.add ?_ _ counter
    split
    · refine All.set ?_ _ gauge
      split
      · exact (all.add _ counter).set _ gauge
      · exact all
    · exact all
  · refine All.add ?_ _ counter
    have lost : (if r.details = .icmp ∨ r.success = false then m.set .icmpLossRatio r.pair
        else m).All G C := by
      split
      · exact all.set _ gauge
      · exact all
    split
    · exact lost.add _ counter
    · exact lost
  · split
    · exact ((all.set _ gauge).set _ gauge).add _ counter
    · exact all
  · have triggered := all.add .mtrTriggered counter
    dsimp only
    split
    · exact triggered.set _ gauge
    · exact triggered.delete _
    · exact triggered
  all_goals exact all

end

end Metrics

namespace Books

/-- The series that are left after a loop were there before it. -/
structure Within (b b' : Books) : Prop where
  gauges : ∀ s ∈ b'.metrics.gauges, s ∈ b.metrics.gauges
  counters : ∀ s ∈ b'.metrics.counters, s ∈ b.metrics.counters

theorem Within.refl (b : Books) : Within b b := ⟨fun _ => id, fun _ => id⟩

variable {b : Books}

theorem Within.trans {b' b'' : Books} (first : Within b b') (second : Within b' b'') :
    Within b b'' :=
  ⟨fun s h => first.gauges s (second.gauges s h), fun s h => first.counters s (second.counters s h)⟩

variable {m : Metrics}

theorem mem_gauges_retirePeerZone {node zone : String} {s : Gauge × Pair} :
    s ∈ (m.retirePeerZone node zone).gauges ↔
      s ∈ m.gauges ∧ ¬ (s.2.destinationNode = node ∧ s.2.destinationZone = zone) := by
  simp [Metrics.retirePeerZone, Metrics.forgetPairGauges, Metrics.retirePairs, imp_iff_not_or]

variable {s : Counter × Pair}

theorem mem_counters_retirePeerZone {node zone : String} :
    s ∈ (m.retirePeerZone node zone).counters ↔
      s ∈ m.counters ∧ ¬ (s.2.destinationNode = node ∧ s.2.destinationZone = zone) := by
  simp [Metrics.retirePeerZone, Metrics.forgetPairGauges, Metrics.retirePairs, imp_iff_not_or]

/-! ### Peers that are back -/

theorem within_back (b : Books) (p : Target) : Within b (b.back p) := by
  unfold back
  split
  · exact .refl b
  · refine ⟨fun s listed => ?_, fun s listed => ?_⟩
    all_goals
      dsimp only at listed
      split at listed
      · first
          | exact (mem_gauges_retirePeerZone.mp listed).1
          | exact (mem_counters_retirePeerZone.mp listed).1
      · exact listed

theorem departed_back (b : Books) (p : Target) (n : String) :
    (b.back p).departed.lookup n = if n = p.nodeName then none else b.departed.lookup n := by
  unfold back
  split
  · rename_i absent
    grind
  · exact GoMap.lookup_erase_if _ _ _

theorem probeIntended_back (b : Books) (p : Target) :
    (b.back p).metrics.probeIntended = b.metrics.probeIntended := by
  unfold back
  split
  · rfl
  · dsimp only
    split <;> rfl

theorem counters_back {p : Target} {d : DepartedPeer} (left : s ∈ (b.back p).metrics.counters)
    (gone : b.departed.lookup p.nodeName = some d) (node : s.2.destinationNode = p.nodeName)
    (zone : s.2.destinationZone = d.zone) : p.zone = d.zone := by
  unfold back at left
  rw [gone] at left
  dsimp only at left
  split at left
  · exact absurd ⟨node, zone⟩ (mem_counters_retirePeerZone.mp left).2
  · rename_i same
    exact (not_not.mp same).symm

/-- After the loop no peer of the next list is departed, and a peer that was keeps the counters
of the zone it left with only if its first entry has that zone. -/
theorem foldl_back (next : List Target) (b : Books) : Within b (next.foldl back b) ∧
      (next.foldl back b).metrics.probeIntended = b.metrics.probeIntended ∧
      (∀ n, (next.foldl back b).departed.lookup n =
        if n ∈ next.map Target.nodeName then none else b.departed.lookup n) ∧
      ∀ s ∈ (next.foldl back b).metrics.counters, ∀ d p,
        b.departed.lookup s.2.destinationNode = some d → s.2.destinationZone = d.zone →
          next.find? (fun p => p.nodeName = s.2.destinationNode) = some p → p.zone = d.zone := by
  induction next generalizing b with
  | nil => exact ⟨.refl b, rfl, by simp, by simp⟩
  | cons p next ih =>
    obtain ⟨within, intended, departed, counters⟩ := ih (b.back p)
    refine ⟨(within_back b p).trans within, intended.trans (probeIntended_back b p), fun n => ?_,
      fun s listed d q was zone first => ?_⟩
    · rw [List.foldl_cons, departed, departed_back]
      grind
    · by_cases here : s.2.destinationNode = p.nodeName
      · obtain rfl : p = q := by simpa [List.find?_cons, here] using first
        exact counters_back (within.counters s listed) (here ▸ was) here zone
      · refine counters s listed d q ?_ zone ?_
        · rw [departed_back, if_neg here, was]
        · simpa [List.find?_cons, Ne.symm here] using first

/-! ### Peers that are gone -/

theorem keep_eq_none_iff {next : List Target} {n : String} :
    (keep next).lookup n = none ↔ n ∉ next.map Target.nodeName := by
  have filled (m : GoMap String String) :
      (next.foldl (fun m p => AList.insert p.nodeName p.zone m) m).lookup n = none ↔
        n ∉ next.map Target.nodeName ∧ m.lookup n = none := by
    induction next generalizing m with
    | nil => simp
    | cons p next ih =>
      rw [List.foldl_cons, ih, GoMap.lookup_insert_if]
      grind
  rw [keep, filled]
  simp

section
variable (keep : GoMap String String)
include keep

theorem within_gone (clock : String → Int) (b : Books) (c : Target) :
    Within b (b.gone keep clock c) := by
  unfold gone
  split
  · exact ⟨fun s listed => List.mem_of_mem_filter listed, fun s listed => listed⟩
  · split
    · exact ⟨fun s listed => (mem_gauges_retirePeerZone.mp listed).1,
        fun s listed => (mem_counters_retirePeerZone.mp listed).1⟩
    · exact .refl b

theorem departed_gone (clock : String → Int) (b : Books) (c : Target)
    (n : String) : (b.gone keep clock c).departed.lookup n =
      if n = c.nodeName ∧ keep.lookup n = none ∧ b.departed.lookup n = none then
        some ⟨clock n, c.zone⟩
      else b.departed.lookup n := by
  unfold gone
  split
  · rename_i absent
    dsimp only
    split
    · rename_i already
      have known := AList.lookup_isSome.mpr already
      grind
    · rename_i new
      have unknown := AList.lookup_eq_none.mpr new
      rw [GoMap.lookup_insert_if]
      grind
  · rename_i zone listed
    split <;> grind

theorem probeIntended_gone (clock : String → Int) (b : Books)
    (c : Target) (key : String × String) : (b.gone keep clock c).metrics.probeIntended.lookup key =
      if key.2 = c.nodeName ∧ keep.lookup key.2 = none then none
      else b.metrics.probeIntended.lookup key := by
  unfold gone
  split
  · simp only [Metrics.forgetPeer, Metrics.forgetPairGauges, GoMap.lookup_sieveKeys]
    grind
  · have present : ¬ (key.2 = c.nodeName ∧ keep.lookup key.2 = none) := by grind
    rw [if_neg present]
    split <;> rfl

end

/-- What the second loop leaves of a current entry's node and zone. -/
theorem gauges_gone {keep : GoMap String String} {clock : String → Int} {c : Target}
    {s : Gauge × Pair} (left : s ∈ (b.gone keep clock c).metrics.gauges)
    (node : s.2.destinationNode = c.nodeName) (zone : s.2.destinationZone = c.zone) :
    keep.lookup c.nodeName = some c.zone := by
  unfold gone at left
  split at left
  · have other := (List.mem_filter.mp left).2
    simp [node] at other
  · rename_i z found
    split at left
    · exact absurd ⟨node, zone⟩ (mem_gauges_retirePeerZone.mp left).2
    · rename_i same
      rw [found, not_not.mp same]

theorem counters_gone {keep : GoMap String String} {clock : String → Int} {c : Target}
    (left : s ∈ (b.gone keep clock c).metrics.counters) (node : s.2.destinationNode = c.nodeName)
    (zone : s.2.destinationZone = c.zone) :
    keep.lookup c.nodeName = none ∨ keep.lookup c.nodeName = some c.zone := by
  unfold gone at left
  split at left
  · rename_i absent
    exact .inl absent
  · rename_i z found
    split at left
    · exact absurd ⟨node, zone⟩ (mem_counters_retirePeerZone.mp left).2
    · rename_i same
      rw [found, not_not.mp same]
      exact .inr rfl

/-- The whole second loop. A gauge that is left is not of a current entry that left or changed
its zone, a counter not of one that changed its zone; a node that left is departed, under the
zone of its first entry unless it was departed already. -/
theorem foldl_gone (keep : GoMap String String) (clock : String → Int) (current : List Target)
    (b : Books) : Within b (current.foldl (gone keep clock) b) ∧
      (∀ key, (current.foldl (gone keep clock) b).metrics.probeIntended.lookup key =
        if key.2 ∈ current.map Target.nodeName ∧ keep.lookup key.2 = none then none
        else b.metrics.probeIntended.lookup key) ∧
      (∀ n, (current.foldl (gone keep clock) b).departed.lookup n =
        if keep.lookup n = none then (b.departed.lookup n).or
          ((current.find? fun c => c.nodeName = n).map fun c => ⟨clock n, c.zone⟩)
        else b.departed.lookup n) ∧
      (∀ s ∈ (current.foldl (gone keep clock) b).metrics.gauges, ∀ c ∈ current,
        s.2.destinationNode = c.nodeName → s.2.destinationZone = c.zone →
          keep.lookup c.nodeName = some c.zone) ∧
      ∀ s ∈ (current.foldl (gone keep clock) b).metrics.counters, ∀ c ∈ current,
        s.2.destinationNode = c.nodeName → s.2.destinationZone = c.zone →
          keep.lookup c.nodeName = none ∨ keep.lookup c.nodeName = some c.zone := by
  induction current generalizing b with
  | nil => exact ⟨.refl b, by simp, by simp, by simp, by simp⟩
  | cons c current ih =>
    obtain ⟨within, intended, departed, gauges, counters⟩ := ih (b.gone keep clock c)
    refine ⟨(within_gone keep clock b c).trans within, fun key => ?_, fun n => ?_,
      fun s left c' listed node zone => ?_, fun s left c' listed node zone => ?_⟩
    · rw [List.foldl_cons, intended, probeIntended_gone]
      grind
    · rw [List.foldl_cons, departed, departed_gone, List.find?_cons]
      by_cases listed : keep.lookup n = none
      · by_cases here : c.nodeName = n
        · cases known : b.departed.lookup n <;> simp [listed, here]
        · simp [listed, here, Ne.symm here]
      · simp [listed]
    · rcases List.mem_cons.mp listed with rfl | later
      · exact gauges_gone (within.gauges s left) node zone
      · exact gauges s left c' later node zone
    · rcases List.mem_cons.mp listed with rfl | later
      · exact counters_gone (within.counters s left) node zone
      · exact counters s left c' later node zone

/-! ### The sweep -/

theorem departed_sweepOne (now : Int) (b : Books) (e : Sigma fun _ : String => DepartedPeer)
    (n : String) : (sweepOne now b e).departed.lookup n =
      if e.1 = n ∧ now - e.2.since ≥ departedPeerGrace then none else b.departed.lookup n := by
  unfold sweepOne
  split
  · rw [GoMap.lookup_erase_if]
    grind
  · grind

theorem counters_sweepOne {now : Int} {e : Sigma fun _ : String => DepartedPeer}
    (left : s ∈ (sweepOne now b e).metrics.counters) : s ∈ b.metrics.counters ∧
      (e.1 = s.2.destinationNode → now - e.2.since < departedPeerGrace) := by
  unfold sweepOne at left
  split at left
  · obtain ⟨listed, other⟩ := List.mem_filter.mp left
    grind
  · grind

theorem kept_sweepOne (now : Int) (b : Books) (e : Sigma fun _ : String => DepartedPeer) :
    (sweepOne now b e).metrics.gauges = b.metrics.gauges ∧
      (sweepOne now b e).metrics.probeIntended = b.metrics.probeIntended := by
  unfold sweepOne
  split <;> exact ⟨rfl, rfl⟩

theorem foldl_sweepOne (now : Int) (es : List (Sigma fun _ : String => DepartedPeer)) (b : Books) :
    ((es.foldl (sweepOne now) b).metrics.gauges = b.metrics.gauges ∧
      (es.foldl (sweepOne now) b).metrics.probeIntended = b.metrics.probeIntended) ∧
      (∀ n, (es.foldl (sweepOne now) b).departed.lookup n =
        if ∃ e ∈ es, e.1 = n ∧ now - e.2.since ≥ departedPeerGrace then none
        else b.departed.lookup n) ∧
      ∀ s ∈ (es.foldl (sweepOne now) b).metrics.counters, s ∈ b.metrics.counters ∧
        ∀ e ∈ es, e.1 = s.2.destinationNode → now - e.2.since < departedPeerGrace := by
  induction es generalizing b with
  | nil => simp
  | cons e es ih =>
    obtain ⟨⟨gauges, intended⟩, departed, counters⟩ := ih (sweepOne now b e)
    obtain ⟨gauges', intended'⟩ := kept_sweepOne now b e
    refine ⟨⟨gauges.trans gauges', intended.trans intended'⟩, fun n => ?_, fun s left => ?_⟩
    · rw [List.foldl_cons, departed, departed_sweepOne]
      split_ifs <;> grind
    · obtain ⟨listed, later⟩ := counters s left
      obtain ⟨listed, first⟩ := counters_sweepOne listed
      refine ⟨listed, fun e' mem => ?_⟩
      rcases List.mem_cons.mp mem with rfl | mem
      · exact first
      · exact later e' mem

/-- After a sweep the departed peers are those inside the grace period; the counters of the
others are gone. -/
theorem sweep_spec (now : Int) (b : Books) :
    ((b.sweepDepartedPeers now).metrics.gauges = b.metrics.gauges ∧
      (b.sweepDepartedPeers now).metrics.probeIntended = b.metrics.probeIntended) ∧
      (∀ n, (b.sweepDepartedPeers now).departed.lookup n =
        (b.departed.lookup n).filter fun d => now - d.since < departedPeerGrace) ∧
      ∀ s ∈ (b.sweepDepartedPeers now).metrics.counters, s ∈ b.metrics.counters ∧
        ∀ d, b.departed.lookup s.2.destinationNode = some d → now - d.since < departedPeerGrace :=
          by
  obtain ⟨kept, departed, counters⟩ := foldl_sweepOne now b.departed.entries b
  refine ⟨kept, fun n => ?_, fun s left => ?_⟩
  · rw [sweepDepartedPeers, departed]
    cases found : b.departed.lookup n with
    | none => simp
    | some d =>
      by_cases fresh : now - d.since < departedPeerGrace
      · rw [if_neg]
        · simp [Option.filter, fresh]
        · rintro ⟨⟨_, d'⟩, listed, rfl, stale⟩
          have same := AList.mem_lookup_iff.mpr listed
          rw [found] at same
          cases same
          exact absurd fresh (Int.not_lt.mpr stale)
      · rw [if_pos ⟨⟨n, d⟩, AList.mem_lookup_iff.mp found, rfl, Int.not_lt.mp fresh⟩]
        simp [Option.filter, fresh]
  · obtain ⟨listed, fresh⟩ := counters s left
    exact ⟨listed, fun d found => fresh ⟨_, d⟩ (AList.mem_lookup_iff.mp found) rfl⟩

/-! ### The new list -/

theorem probeIntended_mark (source : Target) (peers : List Target) (m : Metrics)
    (key : String × String) : (markProbeIntended source peers m).probeIntended.lookup key =
      if key.1 = source.nodeName ∧ key.2 ∈ peers.map Target.nodeName then some 1
      else m.probeIntended.lookup key := by
  obtain ⟨src, dst⟩ := key
  have filled (family : GoMap (String × String) Nat) :
      (peers.foldl (fun family p => AList.insert (source.nodeName, p.nodeName) 1 family)
        family).lookup (src, dst) =
        if src = source.nodeName ∧ dst ∈ peers.map Target.nodeName then some 1
        else family.lookup (src, dst) := by
    induction peers generalizing family with
    | nil => simp
    | cons p peers ih =>
      rw [List.foldl_cons, ih, GoMap.lookup_insert_if]
      grind
  exact filled m.probeIntended

theorem all_preinitPeerResults {G C : Pair → Prop} {source : Target} {peers : List Target}
    (entries : ∀ p ∈ peers, C ⟨source.nodeName, p.nodeName, source.zone, p.zone⟩)
    (enabled : List CheckType) (all : m.All G C) :
    (preinitPeerResults source peers enabled m).All G C := by
  refine foldl_invariant (I := Metrics.All G C) all fun m type _ all => ?_
  refine foldl_invariant (I := Metrics.All G C) all fun m p listed all => ?_
  exact (all.add _ (entries p listed)).add _ (entries p listed)

theorem probeIntended_preinitPeerResults (source : Target) (peers : List Target)
    (enabled : List CheckType) (m : Metrics) :
    (preinitPeerResults source peers enabled m).probeIntended = m.probeIntended := by
  refine foldl_invariant (I := fun m' : Metrics => m'.probeIntended = m.probeIntended) rfl
    fun m' type _ same => ?_
  exact foldl_invariant (I := fun m' : Metrics => m'.probeIntended = m.probeIntended) same
    fun m' p _ same => same

end Books

/-! ## The invariant -/

namespace AgentState

/-- The list has an entry of that node and zone. -/
def Entry (peers : List Target) (node zone : String) : Prop :=
  ∃ p ∈ peers, node = p.nodeName ∧ zone = p.zone

/-- The pair is of this agent, with its zone, and a peer of the list. -/
def Current (st : AgentState) (pair : Pair) : Prop :=
  (pair.sourceNode = st.source.nodeName ∧ pair.sourceZone = st.source.zone) ∧
    Entry st.peers pair.destinationNode pair.destinationZone

/-- The destination has left, and did so under that zone. -/
def Departed (st : AgentState) (pair : Pair) : Prop :=
  ∃ d, st.books.departed.lookup pair.destinationNode = some d ∧
    ⟨pair.destinationNode, pair.destinationZone, d.since⟩ ∈ st.left

def Counted (st : AgentState) (pair : Pair) : Prop :=
  (pair.sourceNode = st.source.nodeName ∧ pair.sourceZone = st.source.zone) ∧
    (Entry st.peers pair.destinationNode pair.destinationZone ∨ st.Departed pair)

structure Follows (st : AgentState) : Prop where
  core : Inv st.core
  intended : ∀ key, st.metrics.probeIntended.lookup key =
    if key.1 = st.source.nodeName ∧ key.2 ∈ st.peers.map Target.nodeName then some 1 else none
  series : st.metrics.All st.Current st.Counted
  departed : ∀ n d, st.books.departed.lookup n = some d →
    n ∉ st.peers.map Target.nodeName ∧ st.lastSweep - d.since < departedPeerGrace

/-- The entries of a next list that are installed. -/
def installed (st : AgentState) (next : List Target) : List Target :=
  (st.core.scheduler.replacePeers next).peers

/-- No entry that is dropped as this agent's own hides that a peer or its zone is gone, and a
node that is back has no counters left but those that are retired now or that go on. -/
structure Clear (st : AgentState) (next : List Target) : Prop where
  nodes : ∀ c ∈ st.peers, c.nodeName ∈ next.map Target.nodeName →
    c.nodeName ∈ (st.installed next).map Target.nodeName
  zones : ∀ c ∈ st.peers, (Books.keep next).lookup c.nodeName = some c.zone →
    Entry (st.installed next) c.nodeName c.zone
  returns : ∀ s ∈ st.metrics.counters, ∀ d ∈ st.books.departed.lookup s.2.destinationNode,
      ∀ p ∈ next.find? fun p => p.nodeName = s.2.destinationNode,
        (s.2.destinationZone = d.zone ∧ p.zone ≠ d.zone) ∨
          Entry (st.installed next) s.2.destinationNode s.2.destinationZone

instance (peers : List Target) (node zone : String) : Decidable (Entry peers node zone) :=
  inferInstanceAs (Decidable (∃ p ∈ peers, _))

instance (st : AgentState) (next : List Target) : Decidable (st.Clear next) :=
  decidable_of_iff (_ ∧ _ ∧ _) ⟨fun ⟨nodes, zones, returns⟩ => ⟨nodes, zones, returns⟩,
    fun ⟨nodes, zones, returns⟩ => ⟨nodes, zones, returns⟩⟩

/-- The next list of a step is clear. -/
def InOrder (st : AgentState) : Event → Prop
  | .applyPeers next _ _ _ => st.Clear next
  | .adoptZone _ | .sweep _ | .probing _ => True

instance (st : AgentState) : (e : Event) → Decidable (st.InOrder e)
  | .applyPeers next _ _ _ => inferInstanceAs (Decidable (st.Clear next))
  | .adoptZone _ | .sweep _ | .probing _ => inferInstanceAs (Decidable True)

/-! ## Steps -/

variable {n : String}

theorem mem_of_mem_installed {st : AgentState} {next : List Target}
    (listed : n ∈ (st.installed next).map Target.nodeName) : n ∈ next.map Target.nodeName := by
  obtain ⟨p, kept, rfl⟩ := List.mem_map.mp listed
  exact List.mem_map_of_mem (List.mem_of_mem_filter kept)

theorem find_of_named {peers : List Target} (named : n ∈ peers.map Target.nodeName) :
    ∃ p, peers.find? (fun p => p.nodeName = n) = some p := by
  obtain ⟨p, listed, name⟩ := List.mem_map.mp named
  exact Option.isSome_iff_exists.mp (List.find?_isSome.mpr ⟨p, listed, by simp [name]⟩)

/-- The departed peers of the next list: those still away and those that leave now. -/
theorem departed_forgetDepartedPeers (next current : List Target) (clock : String → Int)
    (b : Books) (n : String) : (b.forgetDepartedPeers next current clock).departed.lookup n =
      if n ∈ next.map Target.nodeName then none
      else (b.departed.lookup n).or ((current.find? fun c => c.nodeName = n).map
        fun c => ⟨clock n, c.zone⟩) := by
  obtain ⟨-, -, departed, -, -⟩ :=
    Books.foldl_gone (Books.keep next) clock current (next.foldl Books.back b)
  obtain ⟨-, -, back, -⟩ := Books.foldl_back next b
  rw [Books.forgetDepartedPeers, departed, back]
  by_cases listed : n ∈ next.map Target.nodeName
  · rw [if_pos listed, if_pos listed, if_neg (fun none => Books.keep_eq_none_iff.mp none listed)]
  · rw [if_neg listed, if_neg listed, if_pos (Books.keep_eq_none_iff.mpr listed)]

/-- A departed peer whose counters a sweep has left is still departed after it. -/
theorem departed_sweep {b : Books} {now : Int} {d : DepartedPeer}
    (found : b.departed.lookup n = some d) (recent : now - d.since < departedPeerGrace) :
    (b.sweepDepartedPeers now).departed.lookup n = some d := by
  rw [(Books.sweep_spec now b).2.1, found]
  simp [Option.filter, recent]

section applyPeers
variable {st : AgentState} {next : List Target} {enabled : List CheckType} {clock : String → Int}
  {now : Int}

section
variable (inv : st.Follows)
include inv

section
variable (clear : st.Clear next)
include clear

theorem Follows.intended_applyPeers
    (key : String × String) :
    (st.applyPeers next enabled clock now).metrics.probeIntended.lookup key =
      if key.1 = st.source.nodeName ∧ key.2 ∈ (st.installed next).map Target.nodeName then some 1
      else none := by
  obtain ⟨⟨-, kept⟩, -⟩ := Books.sweep_spec now (st.books.forgetDepartedPeers next st.peers clock)
  obtain ⟨-, gone, -⟩ :=
    Books.foldl_gone (Books.keep next) clock st.peers (next.foldl Books.back st.books)
  obtain ⟨-, back, -⟩ := Books.foldl_back next st.books
  have marks := Books.probeIntended_mark st.source (st.installed next)
    (Books.preinitPeerResults st.source (st.installed next) enabled
      ((st.books.forgetDepartedPeers next st.peers clock).sweepDepartedPeers now).metrics) key
  refine marks.trans ?_
  split
  · rfl
  · rename_i other
    rw [Books.probeIntended_preinitPeerResults, kept, Books.forgetDepartedPeers, gone, back,
      inv.intended]
    have leaves : key.1 = st.source.nodeName → key.2 ∈ st.peers.map Target.nodeName →
        (Books.keep next).lookup key.2 = none := by
      intro own listed
      obtain ⟨c, mem, name⟩ := List.mem_map.mp listed
      refine Books.keep_eq_none_iff.mpr fun named => other ⟨own, ?_⟩
      rw [← name] at named ⊢
      exact clear.nodes c mem named
    grind

theorem Follows.gauges_applyPeers {s : Gauge × Pair}
    (left : s ∈ ((st.books.forgetDepartedPeers next st.peers clock).sweepDepartedPeers
      now).metrics.gauges) :
    (st.applyPeers next enabled clock now).Current s.2 := by
  obtain ⟨⟨kept, -⟩, -⟩ := Books.sweep_spec now (st.books.forgetDepartedPeers next st.peers clock)
  obtain ⟨within, -, -, gauges, -⟩ :=
    Books.foldl_gone (Books.keep next) clock st.peers (next.foldl Books.back st.books)
  rw [kept] at left
  have before := (Books.foldl_back next st.books).1.gauges s (within.gauges s left)
  obtain ⟨own, c, listed, node, zone⟩ := inv.series.1 s before
  refine ⟨own, ?_⟩
  rw [node, zone]
  exact clear.zones c listed (gauges s left c listed node zone)

theorem Follows.counters_applyPeers
    {s : Counter × Pair}
    (left : s ∈ ((st.books.forgetDepartedPeers next st.peers clock).sweepDepartedPeers
      now).metrics.counters) :
    (st.applyPeers next enabled clock now).Counted s.2 := by
  obtain ⟨-, -, recent⟩ := Books.sweep_spec now (st.books.forgetDepartedPeers next st.peers clock)
  obtain ⟨within, -, -, -, counters⟩ :=
    Books.foldl_gone (Books.keep next) clock st.peers (next.foldl Books.back st.books)
  obtain ⟨before, -, -, returned⟩ := Books.foldl_back next st.books
  have departed := departed_forgetDepartedPeers next st.peers clock st.books s.2.destinationNode
  obtain ⟨left, recent⟩ := recent s left
  have away (d : DepartedPeer)
      (found : (st.books.forgetDepartedPeers next st.peers clock).departed.lookup
        s.2.destinationNode = some d)
      (noted : ⟨s.2.destinationNode, s.2.destinationZone, d.since⟩ ∈
        (st.applyPeers next enabled clock now).left) :
      (st.applyPeers next enabled clock now).Departed s.2 :=
    ⟨d, departed_sweep found (recent d found), noted⟩
  obtain ⟨own, entry | ⟨d, gone, noted⟩⟩ :=
    inv.series.2 s (before.counters s (within.counters s left))
  · obtain ⟨c, listed, node, zone⟩ := entry
    refine ⟨own, ?_⟩
    rcases counters s left c listed node zone with absent | same
    · -- the node leaves with this list
      have absent : s.2.destinationNode ∉ next.map Target.nodeName :=
        node ▸ Books.keep_eq_none_iff.mp absent
      have here : s.2.destinationNode ∈ st.peers.map Target.nodeName :=
        node ▸ List.mem_map_of_mem listed
      have unknown : st.books.departed.lookup s.2.destinationNode = none :=
        Option.eq_none_iff_forall_ne_some.mpr fun d found => (inv.departed _ d found).1 here
      obtain ⟨first, found⟩ := find_of_named here
      rw [if_neg absent, unknown, found] at departed
      have unlisted : c.nodeName ∉ (st.installed next).map Target.nodeName :=
        fun kept => absent (node ▸ mem_of_mem_installed kept)
      refine .inr (away _ departed (List.mem_append_right _ ?_))
      exact List.mem_map.mpr ⟨c, List.mem_filter.mpr ⟨listed, decide_eq_true unlisted⟩,
        by rw [node, zone]⟩
    · rw [node, zone]
      exact .inl (clear.zones c listed same)
  · refine ⟨own, ?_⟩
    by_cases named : s.2.destinationNode ∈ next.map Target.nodeName
    · -- the node is back
      obtain ⟨p, found⟩ := find_of_named named
      have before := before.counters s (within.counters s left)
      rcases clear.returns s before d gone p found with ⟨zone, moved⟩ | entry
      · exact absurd (returned s (within.counters s left) d p gone zone found) moved
      · exact .inl entry
    · rw [if_neg named, gone] at departed
      exact .inr (away d departed (List.mem_append_left _ noted))

theorem Follows.applyPeers : (st.applyPeers next enabled clock now).Follows := by
  refine ⟨inv.core.step (a := .replacePeers next) rfl, inv.intended_applyPeers clear, ?_,
    fun n d found => ?_⟩
  · refine Books.all_preinitPeerResults (fun p listed => ?_) enabled
      ⟨fun s => inv.gauges_applyPeers clear, fun s => inv.counters_applyPeers clear⟩
    exact ⟨⟨rfl, rfl⟩, .inl ⟨p, listed, rfl, rfl⟩⟩
  · have swept := (Books.sweep_spec now (st.books.forgetDepartedPeers next st.peers clock)).2.1 n
    rw [departed_forgetDepartedPeers] at swept
    obtain ⟨old, recent⟩ := Option.filter_eq_some_iff.mp (swept.symm.trans found)
    refine ⟨fun listed => ?_, of_decide_eq_true recent⟩
    rw [if_pos (mem_of_mem_installed listed)] at old
    cases old

end

end

end applyPeers

theorem Follows.adoptZone {st : AgentState} (inv : st.Follows) (zone : String) :
    (st.adoptZone zone).Follows := by
  unfold AgentState.adoptZone
  split
  · exact inv
  · -- every series is of the old zone, so none is left
    refine ⟨inv.core.step (a := .adoptZone zone) rfl, inv.intended, ⟨fun s left => ?_,
      fun s left => ?_⟩, inv.departed⟩
    · obtain ⟨listed, other⟩ := List.mem_filter.mp left
      obtain ⟨⟨node, old⟩, -⟩ := inv.series.1 s listed
      simp [node, old] at other
    · obtain ⟨listed, other⟩ := List.mem_filter.mp left
      obtain ⟨⟨node, old⟩, -⟩ := inv.series.2 s listed
      simp [node, old] at other

theorem Follows.sweep {st : AgentState} (inv : st.Follows) (now : Int) :
    (st.sweepDepartedPeers now).Follows := by
  obtain ⟨⟨gauges, intended⟩, departed, counters⟩ := Books.sweep_spec now st.books
  refine ⟨inv.core, fun key => ?_, ⟨fun s left => ?_, fun s left => ?_⟩, fun n d found => ?_⟩
  · exact (congrArg (AList.lookup key) intended).trans (inv.intended key)
  · exact inv.series.1 s (gauges ▸ left)
  · obtain ⟨listed, recent⟩ := counters s left
    obtain ⟨own, entry | ⟨d, gone, noted⟩⟩ := inv.series.2 s listed
    · exact ⟨own, .inl entry⟩
    · exact ⟨own, .inr ⟨d, departed_sweep gone (recent d gone), noted⟩⟩
  · obtain ⟨old, recent⟩ := Option.filter_eq_some_iff.mp ((departed n).symm.trans found)
    exact ⟨(inv.departed n d old).1, of_decide_eq_true recent⟩

theorem scheduler_of_probing {core core' : State} {a : Action} (quiet : a.probing = true)
    (taken : Agent.step core a = some core') : core'.scheduler = core.scheduler := by
  cases a with
  | startRound r checker =>
    simp only [Agent.step] at taken
    split at taken <;> cases taken
    rfl
  | probeDone r i success details trace =>
    obtain ⟨round, held, taken⟩ := Option.bind_eq_some_iff.mp taken
    obtain ⟨probe, listed, rfl⟩ := Option.map_eq_some_iff.mp taken
    exact (State.completed probe _ trace _).scheduler
  | probeDropped r i =>
    obtain ⟨round, held, rfl⟩ := Option.map_eq_some_iff.mp taken
    rfl
  | traceDone t success details =>
    obtain ⟨probe, held, rfl⟩ := Option.map_eq_some_iff.mp taken
    dsimp only
    split <;> rfl
  | localRound checker success details =>
    simp only [Agent.step] at taken
    split at taken <;> cases taken
    rfl
  | replacePeers peers => cases quiet
  | adoptZone zone => cases quiet

theorem record_of_nodeLocal {r : CheckResult} (nodeLocal : r.type.nodeLocal = true) (m : Metrics) :
    record m r = m := by
  unfold record
  cases type : r.type <;> simp_all [CheckType.nodeLocal]

theorem probeIntended_record (m : Metrics) (r : CheckResult) :
    (record m r).probeIntended = m.probeIntended := by
  unfold record
  repeat' split
  all_goals rfl

theorem Follows.probing {st : AgentState} (inv : st.Follows) {a : Action} {core : State}
    (quiet : a.probing = true) (taken : Agent.step st.core a = some core) :
    Follows { st with
      core
      books := { st.books with
        metrics := (core.handed.drop st.core.handed.length).foldl record st.metrics } } := by
  have same := scheduler_of_probing quiet taken
  have core_inv := inv.core.step taken
  have hands := inv.core.hands taken
  obtain ⟨scheduler, rounds, traces, handed⟩ := core
  obtain rfl : scheduler = st.core.scheduler := same
  suffices recorded : ((handed.drop st.core.handed.length).foldl record st.metrics).probeIntended =
      st.metrics.probeIntended ∧
      ((handed.drop st.core.handed.length).foldl record st.metrics).All st.Current st.Counted by
    obtain ⟨intended, series⟩ := recorded
    exact ⟨core_inv, fun key => (congrArg (AList.lookup key) intended).trans (inv.intended key),
      series, inv.departed⟩
  rcases hands with hands | ⟨checker, success, details, rfl, nodeLocal, own⟩
  · dsimp only at hands
    cases hands with
    | nothing => simpa using inv.series
    | peer fits delivered =>
      obtain ⟨entry, node, zone, -⟩ := inv.core.wellFormed.describes fits delivered
      simp only [List.drop_left, List.foldl_cons, List.foldl_nil]
      exact ⟨probeIntended_record _ _,
        inv.series.record ⟨⟨node, zone⟩, entry⟩ ⟨⟨node, zone⟩, .inl entry⟩⟩
  · dsimp only at own
    subst own
    simp only [List.drop_left, List.foldl_cons, List.foldl_nil]
    rw [record_of_nodeLocal nodeLocal]
    exact ⟨rfl, inv.series⟩

theorem Follows.step {st st' : AgentState} (inv : st.Follows) {e : Event} (order : st.InOrder e)
    (taken : st.step e = some st') : st'.Follows := by
  cases e with
  | applyPeers next enabled clock now =>
    cases taken
    exact inv.applyPeers order
  | adoptZone zone =>
    cases taken
    exact inv.adoptZone zone
  | sweep now =>
    cases taken
    exact inv.sweep now
  | probing a =>
    simp only [AgentState.step] at taken
    split at taken
    · rename_i quiet
      obtain ⟨core, moved, rfl⟩ := Option.map_eq_some_iff.mp taken
      exact inv.probing quiet moved
    · cases taken

/-- An agent before its first peer list. -/
def initial (source : Source) : AgentState where
  core := Agent.initial source

theorem follows_initial (source : Source) : (initial source).Follows := by
  refine ⟨inv_initial source, fun key => ?_, ⟨by simp [initial], by simp [initial]⟩,
    by simp [initial]⟩
  rw [if_neg (fun listed => List.not_mem_nil listed.2)]
  exact AList.lookup_empty key

end AgentState

/-- In every run whose lists are clear, after every step: the plan gauge is 1 for exactly the nodes
of the peer list, each pair gauge is of this agent's zone and of an entry of the list, and each pair
counter is of such an entry or of a node that is away and left, under that zone, less than the
grace period before the last sweep. -/
theorem series_follow (source : Source) (st : AgentState)
    (run : Reaches AgentState.step AgentState.InOrder (AgentState.initial source) st) :
    (∀ key v, st.metrics.probeIntended.lookup key = some v ↔
      v = 1 ∧ key.1 = st.source.nodeName ∧ key.2 ∈ st.peers.map Target.nodeName) ∧
    (∀ s ∈ st.metrics.gauges,
      (s.2.sourceNode = st.source.nodeName ∧ s.2.sourceZone = st.source.zone) ∧
        ∃ p ∈ st.peers, s.2.destinationNode = p.nodeName ∧ s.2.destinationZone = p.zone) ∧
    ∀ s ∈ st.metrics.counters,
      (s.2.sourceNode = st.source.nodeName ∧ s.2.sourceZone = st.source.zone) ∧
        ((∃ p ∈ st.peers, s.2.destinationNode = p.nodeName ∧ s.2.destinationZone = p.zone) ∨
          s.2.destinationNode ∉ st.peers.map Target.nodeName ∧
            ∃ l ∈ st.left, l.node = s.2.destinationNode ∧ l.zone = s.2.destinationZone ∧
              st.lastSweep - l.since < departedPeerGrace) := by
  have inv : st.Follows := run.invariant (AgentState.follows_initial source)
    fun _ _ _ inv order => inv.step order
  refine ⟨fun key v => ?_, inv.series.1, fun s listed => ?_⟩
  · rw [inv.intended]
    grind
  · obtain ⟨own, entry | ⟨d, gone, noted⟩⟩ := inv.series.2 s listed
    · exact ⟨own, .inl entry⟩
    · obtain ⟨away, recent⟩ := inv.departed _ d gone
      exact ⟨own, .inr ⟨away, _, noted, rfl, rfl, recent⟩⟩

def ownNode : Source :=
  ⟨{ agentID := "a", nodeName := "n1", podIP := "10.0.0.1", zone := "z1" }, by decide⟩

/-- One peer changes its zone while its probe is out, another leaves, and one of the list's
entries is this agent. -/
def rollingList : List Event :=
  [.applyPeers [{ agentID := "b", nodeName := "n2", zone := "z1" },
      { agentID := "c", nodeName := "n3", zone := "z1" }] [.tcp, .udp] (fun _ => 0) 0,
    .probing (.startRound 0 .udp), .probing (.probeDone 0 1 true (.udp 5) none),
    .applyPeers [{ agentID := "b", nodeName := "n2", zone := "z2" },
      { agentID := "a", nodeName := "n1", zone := "z1" }] [.tcp, .udp] (fun _ => 60) 60,
    .probing (.probeDone 0 0 true (.udp 5) none), .probing (.startRound 1 .udp),
    .probing (.probeDone 1 0 true (.udp 5) none), .sweep 120]

theorem series_follow_rollingList :
    ∃ st : AgentState, st.metrics.probeIntended.lookup ("n1", "n3") = none ∧
      st.metrics.gauges ≠ [] ∧
      (∀ s ∈ st.metrics.gauges, ∃ p ∈ st.peers, s.2.destinationNode = p.nodeName ∧
        s.2.destinationZone = p.zone) ∧ ∃ s ∈ st.metrics.counters, s.2.destinationNode = "n3" ∧
        ∃ l ∈ st.left, l.zone = s.2.destinationZone ∧
          st.lastSweep - l.since < departedPeerGrace := by
  let st := (exec (guarded AgentState.step AgentState.InOrder) (AgentState.initial ownNode)
    rollingList).get (by decide)
  have run : Reaches AgentState.step AgentState.InOrder (AgentState.initial ownNode) st :=
    Reaches.of_exec (Option.some_get _).symm
  obtain ⟨-, gauges, counters⟩ := series_follow ownNode st run
  obtain ⟨s, listed, away⟩ : ∃ s ∈ st.metrics.counters, s.2.destinationNode = "n3" := by
    decide
  refine ⟨st, by decide, by decide, fun s listed => (gauges s listed).2, s, listed, away, ?_⟩
  obtain ⟨-, ⟨p, here, name, -⟩ | ⟨-, l, noted, -, zone, recent⟩⟩ := counters s listed
  · have absent : ∀ p ∈ st.peers, p.nodeName ≠ "n3" := by decide
    exact absurd (name.symm.trans away) (absent p here)
  · exact ⟨l, noted, zone, recent⟩

/-- A peer is listed with this agent's own pod address. Its entry is dropped and the list is
empty, but the node was named, so its plan gauge stays. -/
theorem series_stale : ∃ st : AgentState,
    Reaches AgentState.step (fun _ _ => True) (AgentState.initial ownNode) st ∧
      st.peers = [] ∧ st.metrics.probeIntended.lookup ("n1", "n2") = some 1 := by
  let st := (exec (guarded AgentState.step fun _ _ => True) (AgentState.initial ownNode)
    [.applyPeers [{ agentID := "b", nodeName := "n2", podIP := "10.0.0.2", zone := "z1" }]
        [.tcp] (fun _ => 0) 0,
      .applyPeers [{ agentID := "b", nodeName := "n2", podIP := "10.0.0.1", zone := "z1" }]
        [.tcp] (fun _ => 60) 60]).get (by decide)
  exact ⟨st, Reaches.of_exec (Option.some_get _).symm, by decide, by decide⟩

end Kconmon.Agent
