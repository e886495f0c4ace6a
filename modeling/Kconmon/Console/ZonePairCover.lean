import Kconmon.Console.ZonePair
import Mathlib.Data.List.Induction

/-!
# What a zone-pair preset covers

A preset that is refused has started no run. One that is not has cut the sources into at most eight
chunks whose plans together are all pairs of the two zones but the self-pairs, each once; the runs
that it has started are the first of these, and exactly the ones that it returns.
-/
namespace Kconmon.Console.ZonePair
open Lib Checks
open Assign (Agent Topology)

/-! ## Zones -/

/-- The maps after these agents: a node is in the zone of its first agent. -/
structure ZoneNodes.Sound (agents : List Agent) (acc : ZoneNodes) : Prop where
  seen : ∀ n, (acc.seen.lookup n).isSome ↔ n ≠ "" ∧ ∃ a ∈ agents, a.nodeName = n
  mem : ∀ z n, n ∈ (acc.zones.lookup z).getD [] ↔
    n ≠ "" ∧ (agents.find? (·.nodeName = n)).map Agent.zone = some z
  nodup : ∀ z, ((acc.zones.lookup z).getD []).Nodup

theorem find?_isSome {agents : List Agent} {n : String} :
    (agents.find? (·.nodeName = n)).isSome ↔ ∃ a ∈ agents, a.nodeName = n := by
  simp

theorem ZoneNodes.Sound.visit {agents : List Agent} {acc : ZoneNodes} (sound : acc.Sound agents)
    (a : Agent) : (acc.visit a).Sound (agents ++ [a]) := by
  have later : ∀ n, n ≠ a.nodeName ∨ (∃ b ∈ agents, b.nodeName = n) →
      (agents ++ [a]).find? (·.nodeName = n) = agents.find? (·.nodeName = n) := by
    intro n known
    rw [List.find?_append]
    rcases known with other | known
    · simp [Ne.symm other]
    · rw [Option.or_of_isSome (find?_isSome.mpr known)]
  rw [ZoneNodes.visit]
  split
  · rename_i unnamed
    refine ⟨fun n => ?_, fun z n => ?_, sound.nodup⟩
    · rw [sound.seen]
      grind
    · rw [sound.mem]
      refine and_congr_right fun named => ?_
      rw [later n (.inl (unnamed ▸ named))]
  · rename_i named
    split
    · rename_i seen
      have known := ((sound.seen _).mp seen).2
      refine ⟨fun n => ?_, fun z n => ?_, sound.nodup⟩
      · rw [sound.seen]
        grind
      · rw [sound.mem]
        by_cases same : n = a.nodeName
        · rw [later n (.inr (same ▸ known))]
        · rw [later n (.inl same)]
    · rename_i unseen
      have unknown : ¬ ∃ b ∈ agents, b.nodeName = a.nodeName := fun known =>
        unseen ((sound.seen _).mpr ⟨named, known⟩)
      have absent : agents.find? (·.nodeName = a.nodeName) = none := by
        rw [← Option.not_isSome_iff_eq_none, find?_isSome]
        exact unknown
      have unlisted : ∀ z, a.nodeName ∉ (acc.zones.lookup z).getD [] := by
        intro z listed
        simpa [absent] using ((sound.mem z _).mp listed).2
      refine ⟨fun n => ?_, fun z n => ?_, fun z => ?_⟩
      · simp only [GoMap.lookup_insert_if]
        have before := sound.seen n
        grind
      · have before := sound.mem z n
        simp only [GoMap.lookup_insert_if]
        by_cases same : n = a.nodeName
        · subst same
          have found : (agents ++ [a]).find? (·.nodeName = a.nodeName) = some a := by
            rw [List.find?_append, absent]
            simp
          rw [found]
          have apart := unlisted z
          grind
        · rw [later n (.inl same)]
          grind
      · simp only [GoMap.lookup_insert_if]
        have before := sound.nodup z
        have apart := unlisted z
        grind [List.nodup_append]

theorem zones_sound (agents : List Agent) : (agents.foldl ZoneNodes.visit {}).Sound agents := by
  induction agents using List.reverseRecOn with
  | nil => exact ⟨by simp, by simp, by simp⟩
  | append_singleton agents a ih =>
    rw [List.foldl_append]
    exact ih.visit a

/-- The nodes of a zone. -/
def nodesOf (topo : Topology) (zone : String) : List String :=
  ((zoneNodes topo).lookup zone).getD []

theorem nodesOf_perm (topo : Topology) (zone : String) : (nodesOf topo zone).Perm
      (((topo.agents.foldl ZoneNodes.visit {}).zones.lookup zone).getD []) := by
  rw [nodesOf, zoneNodes, GoMap.lookup_mapValues]
  cases (topo.agents.foldl ZoneNodes.visit {}).zones.lookup zone with
  | none => exact .refl _
  | some nodes => exact List.perm_insertionSort _ nodes

theorem nodup_nodesOf (topo : Topology) (zone : String) : (nodesOf topo zone).Nodup :=
  (nodesOf_perm topo zone).nodup_iff.mpr ((zones_sound topo.agents).nodup zone)

/-! ## Plans -/

/-- The pairs of a chunk. -/
def plannedPairs (spec : ZonePairSpec) (destinations group : List String) : List Pair :=
  match plan (chunkSpec spec destinations group).toSpec [] with
  | .ok pairs => pairs
  | .error _ => []

/-- The plan accepts the chunk. -/
def Accepted (spec : ZonePairSpec) (destinations group : List String) : Prop :=
  plan (chunkSpec spec destinations group).toSpec [] = .ok (plannedPairs spec destinations group)

section
variable {spec : ZonePairSpec} {destinations group : List String} {groups : List (List String)}

theorem accepted_of_plan {pairs : List Pair}
    (planned : plan (chunkSpec spec destinations group).toSpec [] = .ok pairs) :
    Accepted spec destinations group := by
  rw [Accepted, plannedPairs, planned]

theorem planDestinations_nodes (given : destinations ≠ []) :
    planDestinations destinations [] [] = .ok (destinations.map nodeDestination) := by
  simp [planDestinations, given, checkTyped]

/-- A chunk's plan has the pairs of its sources with all destinations, but no self-pair. -/
theorem mem_plannedPairs (accepted : Accepted spec destinations group) (given : destinations ≠ [])
    {p : Pair} : p ∈ plannedPairs spec destinations group ↔
      ∃ s ∈ group, ∃ d ∈ destinations, s ≠ d ∧ p = ⟨s, nodeDestination d⟩ := by
  obtain ⟨resolved, nodes, -, -, mem⟩ := plan_ok accepted
  obtain rfl : destinations.map nodeDestination = resolved := by
    have known := planDestinations_nodes given
    rw [show planDestinations destinations [] [] = .ok resolved from nodes] at known
    exact (Except.ok.inj known).symm
  have sources : planSources (chunkSpec spec destinations group).toSpec [] = group := by
    by_cases empty : group = [] <;> simp [planSources, chunkSpec, empty]
  rw [mem, sources]
  obtain ⟨source, destination⟩ := p
  simp only [List.mem_map, Pair.mk.injEq, Pair.isSelf]
  constructor
  · rintro ⟨apart, listed, d, known, rfl⟩
    exact ⟨source, listed, d, known, of_decide_eq_false apart, rfl, rfl⟩
  · rintro ⟨s, listed, d, known, apart, rfl, rfl⟩
    exact ⟨decide_eq_false apart, listed, d, known, rfl⟩

theorem nodup_plannedPairs (accepted : Accepted spec destinations group) :
    (plannedPairs spec destinations group).Nodup := by
  obtain ⟨-, -, -, nodup, -⟩ := plan_ok accepted
  exact nodup

/-- The chunks are planned only if the plan accepts all of them. -/
theorem planChunks_ok {planned : List (RunSpec × Nat)}
    (ok : planChunks spec destinations groups = .ok planned) :
    (∀ group ∈ groups, Accepted spec destinations group) ∧
      planned = groups.map fun group =>
        (chunkSpec spec destinations group, (plannedPairs spec destinations group).length) := by
  induction groups generalizing planned with
  | nil =>
    cases ok
    simp
  | cons group groups ih =>
    rw [planChunks, List.mapM_cons] at ok
    cases first : plan (chunkSpec spec destinations group).toSpec [] with
    | error err =>
      rw [first] at ok
      cases ok
    | ok pairs =>
      rw [first] at ok
      cases later : planChunks spec destinations groups with
      | error err =>
        rw [show groups.mapM _ = _ from later] at ok
        cases ok
      | ok rest =>
        rw [show groups.mapM _ = _ from later] at ok
        cases ok
        obtain ⟨all, rfl⟩ := ih later
        have accepted := accepted_of_plan first
        have same : plannedPairs spec destinations group = pairs := by rw [plannedPairs, first]
        simp [accepted, same]
        exact all

end

/-! ## Runs -/

section
variable {spec : ZonePairSpec} {destinations group : List String} {groups : List (List String)}

/-- A run of an accepted chunk is started under a new id, or is not started. -/
theorem start_cases (r : Runner) (accepted : Accepted spec destinations group)
    (some_source : group ≠ []) (given : destinations ≠ []) :
    (∃ r' run, r.start (chunkSpec spec destinations group) = (r', .ok run.id) ∧
      r'.running = r.running ++ [run] ∧ run.spec.sources = group ∧
      run.pairs = plannedPairs spec destinations group) ∨
    ∃ r' err, r.start (chunkSpec spec destinations group) = (r', .error err) ∧
      r'.running = r.running := by
  have nodes : resolveNodes r.topology (chunkSpec spec destinations group).toSpec = some [] := by
    rw [resolveNodes, if_pos]
    exact ⟨some_source, .inl given⟩
  rw [Runner.start, nodes]
  simp only [show plan (chunkSpec spec destinations group).toSpec [] = _ from accepted]
  split
  · exact .inr ⟨_, _, rfl, rfl⟩
  · split
    · refine .inl ⟨_, ⟨_, _, _⟩, rfl, rfl, ?_, rfl⟩
      split <;> rfl
    · exact .inr ⟨_, _, rfl, rfl⟩
    · exact .inr ⟨_, _, rfl, rfl⟩

/-- What the loop has started: the first of the chunks, all of them unless there is an error. -/
structure Launched (spec : ZonePairSpec) (destinations : List String) (groups : List (List String))
    (r : Runner) (before : List ZonePairRun) (out : Outcome) (launched : List StartedRun) :
    Prop where
  running : out.runner.running = r.running ++ launched
  returned : out.started = before ++ launched.map fun run => ⟨run.id, run.pairs.length⟩
  first : launched.map (fun run => (run.spec.sources, run.pairs)) <+:
    groups.map fun group => (group, plannedPairs spec destinations group)
  complete : out.error = none ↔ launched.length = groups.length

theorem startAll_launched (accepted : ∀ group ∈ groups, Accepted spec destinations group)
    (some_source : ∀ group ∈ groups, group ≠ []) (given : destinations ≠ []) (total : Nat)
    (r : Runner) (before : List ZonePairRun) :
    ∃ launched, Launched spec destinations groups r before
      (r.startAll total before (groups.map fun group =>
        (chunkSpec spec destinations group, (plannedPairs spec destinations group).length)))
      launched := by
  induction groups generalizing r before with
  | nil =>
    rw [List.map_nil, Runner.startAll]
    exact ⟨[], by simp, by simp, by simp, by simp⟩
  | cons group groups ih =>
    rw [List.map_cons, Runner.startAll]
    rcases start_cases r (accepted group (by simp)) (some_source group (by simp)) given with
      ⟨r', run, started, running, sources, pairs⟩ | ⟨r', err, failed, running⟩
    · rw [started]
      obtain ⟨launched, rest⟩ := ih (fun g listed => accepted g (List.mem_cons_of_mem _ listed))
        (fun g listed => some_source g (List.mem_cons_of_mem _ listed)) r'
        (before ++ [⟨run.id, (plannedPairs spec destinations group).length⟩])
      refine ⟨run :: launched, ?_, ?_, ?_, ?_⟩
      · rw [rest.running, running, List.append_assoc, List.singleton_append]
      · rw [rest.returned, List.map_cons, pairs, List.append_assoc, List.singleton_append]
      · rw [List.map_cons, List.map_cons, sources, pairs]
        exact (List.prefix_cons_inj _).mpr rest.first
      · rw [rest.complete, List.length_cons, List.length_cons, Nat.add_right_cancel_iff]
    · rw [failed]
      exact ⟨[], by simp [running], by simp, by simp, by simp⟩

end

/-! ## The whole pair -/

/-- The chunks of a preset: they are the sources in their order, and their plans together are all
pairs of the two sides but the self-pairs, each once. -/
structure Covers (spec : ZonePairSpec) (sources destinations : List String)
    (groups : List (List String)) : Prop where
  few : groups.length ≤ presetMaxRuns
  nonempty : ∀ group ∈ groups, group ≠ []
  contiguous : groups.flatten = sources
  one_run : ∀ n ∈ sources, groups.countP (n ∈ ·) = 1
  accepted : ∀ group ∈ groups, Accepted spec destinations group
  distinct : (groups.flatMap (plannedPairs spec destinations)).Nodup
  whole : ∀ p, p ∈ groups.flatMap (plannedPairs spec destinations) ↔
    ∃ s ∈ sources, ∃ d ∈ destinations, s ≠ d ∧ p = ⟨s, nodeDestination d⟩

/-- What the cut gives: few chunks, none empty, that are the sources in their order. -/
theorem chunkZonePairSources_ok {sources destinations : List String} {groups : List (List String)}
    (ok : chunkZonePairSources sources destinations = .ok groups) :
    destinations ≠ [] ∧ groups.length ≤ presetMaxRuns ∧ groups.flatten = sources ∧
      ∀ group ∈ groups, group ≠ [] ∧ group.length * destinations.length ≤ maxPairs := by
  rw [chunkZonePairSources] at ok
  split at ok
  · cases ok
  · rename_i given
    split at ok
    · cases ok
    · rename_i fits
      dsimp only at ok
      split at ok <;> cases ok
      rename_i runs
      have some_destination : 0 < destinations.length := by omega
      have positive : 0 < maxPairs / destinations.length := Nat.div_pos (by omega) some_destination
      refine ⟨List.length_pos_iff.mp some_destination, ?_, flatten_chunks positive, ?_⟩
      · rw [length_chunks positive]
        rw [ceilDiv, if_neg (by omega)] at runs
        grind
      · intro group listed
        obtain ⟨some_source, bound⟩ := length_of_mem_chunksFrom positive listed
        refine ⟨List.length_pos_iff.mp some_source, ?_⟩
        exact (Nat.mul_le_mul_right _ bound).trans (Nat.div_mul_le_self ..)

theorem covers_of_accepted {spec : ZonePairSpec} {sources destinations : List String}
    {groups : List (List String)} (distinct : sources.Nodup)
    (cut : chunkZonePairSources sources destinations = .ok groups)
    (accepted : ∀ group ∈ groups, Accepted spec destinations group) :
    Covers spec sources destinations groups := by
  obtain ⟨given, few, contiguous, each⟩ := chunkZonePairSources_ok cut
  have apart := List.nodup_flatten.mp (contiguous ▸ distinct)
  refine ⟨few, fun group listed => (each group listed).1, contiguous, fun n listed => ?_, accepted,
    ?_, fun p => ?_⟩
  · exact countP_mem_eq_one (contiguous ▸ distinct) (contiguous ▸ listed)
  · refine List.nodup_flatMap.mpr
      ⟨fun group listed => nodup_plannedPairs (accepted group listed), ?_⟩
    refine apart.2.imp_of_mem fun {g g'} hg hg' disjoint p hp hp' => ?_
    obtain ⟨s, listed, d, -, -, rfl⟩ := (mem_plannedPairs (accepted g hg) given).mp hp
    obtain ⟨s', listed', d', -, -, same⟩ := (mem_plannedPairs (accepted g' hg') given).mp hp'
    obtain rfl : s = s' := congrArg Pair.source same
    exact disjoint listed listed'
  · rw [List.mem_flatMap, ← contiguous]
    constructor
    · rintro ⟨group, listed, planned⟩
      obtain ⟨s, hs, rest⟩ := (mem_plannedPairs (accepted group listed) given).mp planned
      exact ⟨s, List.mem_flatten.mpr ⟨group, listed, hs⟩, rest⟩
    · rintro ⟨s, hs, rest⟩
      obtain ⟨group, listed, member⟩ := List.mem_flatten.mp hs
      exact ⟨group, listed, (mem_plannedPairs (accepted group listed) given).mpr ⟨s, member, rest⟩⟩

/-- A preset is refused before any run is started, or it starts the chunks that it has planned. -/
theorem startZonePair_cases (r : Runner) (spec : ZonePairSpec) :
    (∃ err, r.startZonePair spec = ⟨r, [], some err⟩) ∨
    ∃ topo groups planned, r.topology = some topo ∧
      chunkZonePairSources (nodesOf topo spec.sourceZone) (nodesOf topo spec.destinationZone) =
        .ok groups ∧ planChunks spec (nodesOf topo spec.destinationZone) groups = .ok planned ∧
      r.startZonePair spec = r.startAll planned.length [] planned := by
  rw [Runner.startZonePair]
  split
  · exact .inl ⟨_, rfl⟩
  · rename_i topo known
    dsimp only
    split
    · exact .inl ⟨_, rfl⟩
    · split
      · exact .inl ⟨_, rfl⟩
      · split
        · exact .inl ⟨_, rfl⟩
        · rename_i groups cut
          split
          · exact .inl ⟨_, rfl⟩
          · rename_i planned ok
            exact .inr ⟨topo, groups, planned, known, cut, ok, rfl⟩

/-- A preset starts nothing and returns an error, or its chunks cover the zone pair and the runs it
has started are the first of these, exactly those that it returns, and all unless there is an
error. -/
theorem startZonePair_covers (r : Runner) (spec : ZonePairSpec) :
    ((r.startZonePair spec).error.isSome ∧ (r.startZonePair spec).started = [] ∧
      (r.startZonePair spec).runner.running = r.running) ∨
    ∃ topo groups launched, r.topology = some topo ∧
      Covers spec (nodesOf topo spec.sourceZone) (nodesOf topo spec.destinationZone) groups ∧
      Launched spec (nodesOf topo spec.destinationZone) groups r [] (r.startZonePair spec)
        launched := by
  rcases startZonePair_cases r spec with
    ⟨err, refused⟩ | ⟨topo, groups, planned, known, cut, ok, done⟩
  · rw [refused]
    exact .inl ⟨rfl, rfl, rfl⟩
  · obtain ⟨accepted, rfl⟩ := planChunks_ok ok
    obtain ⟨given, -, -, each⟩ := chunkZonePairSources_ok cut
    have covers := covers_of_accepted (nodup_nodesOf topo _) cut accepted
    obtain ⟨launched, start⟩ := startAll_launched accepted
      (fun group listed => (each group listed).1) given _ r []
    rw [done]
    exact .inr ⟨topo, groups, launched, known, covers, start⟩

/-- Two nodes of one zone and one of another. -/
example :
    let topo : Topology :=
      ⟨[⟨"a1", "n1", "z1", []⟩, ⟨"a2", "n2", "z1", []⟩, ⟨"a3", "n3", "z2", []⟩]⟩
    let out := Runner.startZonePair ⟨some topo, [some "r"], []⟩
      { sourceZone := "z1", destinationZone := "z2", type := "tcp" }
    out.error = none ∧ out.started = [⟨"r", 2⟩] ∧
      out.runner.running.flatMap (·.pairs.map fun p => (p.source, p.destination.node)) =
        [("n1", "n3"), ("n2", "n3")] := by
  decide

end Kconmon.Console.ZonePair
