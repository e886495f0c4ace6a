import Kconmon.Controller.External
import Kconmon.Controller.Registry
import Kconmon.Meshplan.Basic

/-!
# Losing leadership

Requests check the leader gate once, at their head. A demotion swaps the flag
and then clears the registry, the external assignments and the plan, one after
the other. A request that was admitted before may write after the clear that
should have removed what it writes. A run in which no request does leaves
nothing behind on a replica that does not lead.
-/
namespace Kconmon.Controller.Leadership
open Lib Model Meshplan External

/-- A Register RPC after its gate check. `planning` holds the notification lock. -/
inductive RegisterStage where
  | admitted (info : AgentInfo)
  | planning (agents : List AgentInfo)
  deriving DecidableEq

/-- What a demotion clears next. -/
inductive Clear where
  | registry
  | external
  | plan
  deriving DecidableEq

structure State where
  leader : Bool := false
  registry : Registry
  plan : Option Plan := none
  manager : ExternalCheckManager := {}
  registers : GoMap Nat RegisterStage := ∅
  /-- The desired state of each PUT that passed the gate and was not applied yet. -/
  puts : GoMap Nat (GoMap String Specs) := ∅
  demotions : GoMap Nat Clear := ∅

namespace State

/-- The leader gate; without leader election it never refuses. -/
def lost (leaderElection : Bool) (st : State) : Bool := leaderElection && !st.leader

/-- Nobody holds the registry's notification lock. -/
def unlocked (st : State) : Bool := st.registers.entries.all fun e =>
  match e.2 with
  | .admitted _ => true
  | .planning _ => false

/-- A demotion in progress still has one of these clears ahead. -/
def ahead (st : State) (clears : List Clear) : Bool :=
    st.demotions.entries.any fun e => e.2 ∈ clears

end State

inductive Action where
  | beginRegister (q : Nat) (info : AgentInfo)
  | mutate (q : Nat) (resolver : ZoneResolver) (now : Int)
  | setPeerPlan (q : Nat)
  | beginPut (q : Nat) (desired : GoMap String Specs)
  | applyPut (q : Nat) (ord : RangeOrder) (unknown : List String)
  | setLeader (d : Nat) (leader : Bool)
  | clear (d : Nat)

section
variable (leaderElection : Bool) (planner : List AgentInfo → Option Plan)

def step (st : State) : Action → Option State
  | .beginRegister q info =>
    if st.lost leaderElection ∨ q ∈ st.registers then none
    else some { st with registers := AList.insert q (.admitted info) st.registers }
  | .mutate q resolver now =>
    match st.registers.lookup q with
    | some (.admitted info) =>
      if st.unlocked then
        let registry := (st.registry.register resolver now info).1
        some { st with
          registry, registers := AList.insert q (.planning registry.snapshotLocked) st.registers }
      else none
    | _ => none
  | .setPeerPlan q =>
    match st.registers.lookup q with
    | some (.planning agents) =>
      some { st with plan := planner agents, registers := st.registers.erase q }
    | _ => none
  | .beginPut q desired =>
    if st.lost leaderElection ∨ q ∈ st.puts then none
    else some { st with puts := AList.insert q desired st.puts }
  -- the streams that the pushes go to hold no leader state
  | .applyPut q ord unknown => (st.puts.lookup q).map fun desired =>
    { st with
      manager := (applyLocked (fun _ => []) desired unknown ord st.manager).1
      puts := st.puts.erase q }
  | .setLeader d leader =>
    if d ∈ st.demotions then none
    else if st.leader ∧ leader = false then
      some { st with leader, demotions := AList.insert d .registry st.demotions }
    else some { st with leader }
  | .clear d =>
    match st.demotions.lookup d with
    | some .registry =>
      if st.unlocked then
        some { st with
          registry := st.registry.resetQuiet, demotions := AList.insert d .external st.demotions }
      else none
    | some .external =>
      some { st with
        manager := ExternalCheckManager.reset, demotions := AList.insert d .plan st.demotions }
    | some .plan => some { st with plan := none, demotions := st.demotions.erase d }
    | none => none

end

/-- A request writes while the replica leads, or while a demotion that has yet to clear what it
writes is in progress. -/
def orderly (st : State) : Action → Bool
  | .mutate _ _ _ => st.leader || st.ahead [.registry]
  | .applyPut _ _ _ => st.leader || st.ahead [.registry, .external]
  | _ => true

/-! ## The invariant -/

namespace State

/-- No request and no transition is in progress. -/
def Quiet (st : State) : Prop :=
  (∀ q, st.registers.lookup q = none) ∧ (∀ q, st.puts.lookup q = none) ∧
    ∀ d, st.demotions.lookup d = none

/-- The replica holds no agent, no plan and no assignment. -/
def Empty (st : State) : Prop := (∀ id, st.registry.agents.lookup id = none) ∧ st.plan = none ∧
    ∀ id, st.manager.assignments.lookup id = none

/-- The replica leads, or one of these clears is still ahead. -/
def Owned (st : State) (clears : List Clear) : Prop :=
  st.leader = true ∨ ∃ d c, st.demotions.lookup d = some c ∧ c ∈ clears

theorem owned_iff (st : State) (clears : List Clear) :
    st.Owned clears ↔ (st.leader || st.ahead clears) = true := by
  unfold Owned ahead
  rw [Bool.or_eq_true, List.any_eq_true]
  refine or_congr_right ⟨?_, ?_⟩
  · rintro ⟨d, c, hd, hc⟩
    exact ⟨⟨d, c⟩, AList.mem_lookup_iff.mp hd, by simpa using hc⟩
  · rintro ⟨e, he, hc⟩
    exact ⟨e.1, e.2, AList.mem_lookup_iff.mpr he, by simpa using hc⟩

theorem Owned.mono {st : State} {clears clears' : List Clear} (h : st.Owned clears)
    (more : ∀ c ∈ clears, c ∈ clears') : st.Owned clears' := by
  rcases h with leads | ⟨d, c, hd, hc⟩
  · exact .inl leads
  · exact .inr ⟨d, c, hd, more c hc⟩

/-- Clears that stay ahead when demotion `d` goes on from `done` to `next`. -/
theorem Owned.advance {st st' : State} {clears : List Clear} {d : Nat} {done next : Clear}
    (h : st.Owned clears) (leads : st'.leader = st.leader)
    (demotions : st'.demotions = AList.insert d next st.demotions)
    (hd : st.demotions.lookup d = some done) (goes : done ∈ clears → next ∈ clears) :
    st'.Owned clears := by
  rcases h with leader | ⟨d', c, hd', hc⟩
  · exact .inl (leads ▸ leader)
  · rw [Owned, demotions]
    by_cases same : d' = d
    · subst same
      cases hd.symm.trans hd'
      exact .inr ⟨d', next, AList.lookup_insert _, goes hc⟩
    · exact .inr ⟨d', c, by rw [AList.lookup_insert_ne same]; exact hd', hc⟩

end State

/-- Whatever the replica holds, it leads or a demotion is about to clear it. -/
structure Inv (st : State) : Prop where
  registry : ∀ id a, st.registry.agents.lookup id = some a → st.Owned [.registry]
  external : ∀ id specs, st.manager.assignments.lookup id = some specs →
    st.Owned [.registry, .external]
  plan : st.plan ≠ none → st.Owned [.registry, .external, .plan]
  planning : ∀ q agents, st.registers.lookup q = some (.planning agents) → st.Owned [.registry]

namespace Inv
variable {st : State}

theorem admitted_of_unlocked (free : st.unlocked = true) {q : Nat} {stage : RegisterStage}
    (hq : st.registers.lookup q = some stage) : ∃ info, stage = .admitted info := by
  unfold State.unlocked at free
  have admitted := List.all_eq_true.mp free ⟨q, stage⟩ (AList.mem_lookup_iff.mp hq)
  cases stage with
  | admitted info => exact ⟨info, rfl⟩
  | planning agents => simp at admitted

section
variable (inv : Inv st)
include inv

theorem beginRegister (q : Nat) (info : AgentInfo) :
    Inv { st with registers := AList.insert q (.admitted info) st.registers } := by
  refine ⟨inv.registry, inv.external, inv.plan, fun q' agents hq' => ?_⟩
  dsimp only at hq'
  rw [GoMap.lookup_insert_if] at hq'
  split at hq'
  · cases hq'
  · exact inv.planning q' agents hq'

theorem mutate (owned : st.Owned [.registry]) (r : Registry) (q : Nat)
    (agents : List AgentInfo) :
    Inv { st with registry := r, registers := AList.insert q (.planning agents) st.registers } :=
  ⟨fun _ _ _ => owned, inv.external, inv.plan, fun _ _ _ => owned⟩

theorem setPeerPlan {q : Nat} {agents : List AgentInfo}
    (hq : st.registers.lookup q = some (.planning agents)) (plan : Option Plan) :
    Inv { st with plan, registers := st.registers.erase q } := by
  refine ⟨inv.registry, inv.external, fun _ => ?_, fun q' agents' hq' => ?_⟩
  · exact (inv.planning q agents hq).mono (by simp)
  · dsimp only at hq'
    rw [GoMap.lookup_erase_if] at hq'
    split at hq'
    · cases hq'
    · exact inv.planning q' agents' hq'

theorem beginPut (puts : GoMap Nat (GoMap String Specs)) : Inv { st with puts } :=
  ⟨inv.registry, inv.external, inv.plan, inv.planning⟩

theorem applyPut (owned : st.Owned [.registry, .external])
    (manager : ExternalCheckManager) (puts : GoMap Nat (GoMap String Specs)) :
    Inv { st with manager, puts } := ⟨inv.registry, fun _ _ _ => owned, inv.plan, inv.planning⟩

end

theorem promoted (st : State) : Inv { st with leader := true } :=
  ⟨fun _ _ _ => .inl rfl, fun _ _ _ => .inl rfl, fun _ => .inl rfl, fun _ _ _ => .inl rfl⟩

theorem demoted (st : State) (d : Nat) :
    Inv { st with leader := false, demotions := AList.insert d .registry st.demotions } := by
  have owned : ∀ clears, Clear.registry ∈ clears →
      { st with leader := false, demotions :=
        AList.insert d .registry st.demotions }.Owned clears :=
    fun clears first => .inr ⟨d, .registry, AList.lookup_insert _, first⟩
  exact ⟨fun _ _ _ => owned _ (by simp), fun _ _ _ => owned _ (by simp), fun _ => owned _ (by simp),
    fun _ _ _ => owned _ (by simp)⟩

theorem clearRegistry (inv : Inv st) {d : Nat} (hd : st.demotions.lookup d = some .registry)
    (free : st.unlocked = true) :
    Inv { st with
      registry := st.registry.resetQuiet, demotions := AList.insert d .external st.demotions } := by
  refine ⟨fun id a ha => ?_, fun id specs hs => ?_, fun held => ?_, fun q agents hq => ?_⟩
  · simp [Registry.resetQuiet] at ha
  · exact (inv.external id specs hs).advance rfl rfl hd (by simp)
  · exact (inv.plan held).advance rfl rfl hd (by simp)
  · obtain ⟨info, admitted⟩ := admitted_of_unlocked free hq
    cases admitted

theorem clearExternal (inv : Inv st) {d : Nat} (hd : st.demotions.lookup d = some .external) :
    Inv { st with
      manager := ExternalCheckManager.reset, demotions := AList.insert d .plan st.demotions } := by
  refine ⟨fun id a ha => ?_, fun id specs hs => ?_, fun held => ?_, fun q agents hq => ?_⟩
  · exact (inv.registry id a ha).advance rfl rfl hd (by simp)
  · simp [ExternalCheckManager.reset] at hs
  · exact (inv.plan held).advance rfl rfl hd (by simp)
  · exact (inv.planning q agents hq).advance rfl rfl hd (by simp)

theorem clearPlan (inv : Inv st) {d : Nat} (hd : st.demotions.lookup d = some .plan) :
    Inv { st with plan := none, demotions := st.demotions.erase d } := by
  -- nothing but the plan was waiting for this last clear
  have kept : ∀ clears, Clear.plan ∉ clears → st.Owned clears →
      { st with plan := none, demotions := st.demotions.erase d }.Owned clears := by
    rintro clears last (leads | ⟨d', c, hd', hc⟩)
    · exact .inl leads
    · refine .inr ⟨d', c, ?_, hc⟩
      have other : d' ≠ d := by
        rintro rfl
        cases hd.symm.trans hd'
        exact last hc
      exact (AList.lookup_erase_ne other).trans hd'
  exact ⟨fun id a ha => kept _ (by simp) (inv.registry id a ha),
    fun id specs hs => kept _ (by simp) (inv.external id specs hs), fun held => absurd rfl held,
    fun q agents hq => kept _ (by simp) (inv.planning q agents hq)⟩

theorem step {leaderElection : Bool} {planner : List AgentInfo → Option Plan} (inv : Inv st)
    {a : Action} {st' : State} (fits : orderly st a = true)
    (moved : Leadership.step leaderElection planner st a = some st') : Inv st' := by
  cases a with
  | beginRegister q info =>
    simp only [Leadership.step] at moved
    split at moved <;> cases moved
    exact inv.beginRegister q info
  | mutate q resolver now =>
    simp only [Leadership.step] at moved
    split at moved
    · split at moved <;> cases moved
      exact inv.mutate ((st.owned_iff _).mpr fits) _ q _
    · cases moved
  | setPeerPlan q =>
    simp only [Leadership.step] at moved
    split at moved <;> cases moved
    rename_i agents hq
    exact inv.setPeerPlan hq (planner agents)
  | beginPut q desired =>
    simp only [Leadership.step] at moved
    split at moved <;> cases moved
    exact inv.beginPut _
  | applyPut q ord unknown =>
    obtain ⟨desired, -, rfl⟩ := Option.map_eq_some_iff.mp moved
    exact inv.applyPut ((st.owned_iff _).mpr fits) _ _
  | setLeader d leader =>
    simp only [Leadership.step] at moved
    split at moved
    · cases moved
    · split at moved
      · rename_i lost
        cases moved
        rw [lost.2]
        exact demoted st d
      · rename_i kept
        cases moved
        cases leader with
        | true => exact promoted st
        | false =>
          have follower : st.leader = false := by simpa using kept
          rw [← follower]
          exact inv
  | clear d =>
    simp only [Leadership.step] at moved
    split at moved
    · rename_i hd
      split at moved <;> cases moved
      rename_i free
      exact inv.clearRegistry hd free
    · rename_i hd
      cases moved
      exact inv.clearExternal hd
    · rename_i hd
      cases moved
      exact inv.clearPlan hd
    · cases moved

end Inv

def initial (ttl : Int) : State := { registry := ⟨∅, ttl⟩ }

theorem inv_initial (ttl : Int) : Inv (initial ttl) :=
  ⟨fun _ _ h => by simp [initial] at h, fun _ _ h => by simp [initial] at h,
    fun h => absurd rfl h, fun _ _ h => by simp [initial] at h⟩

/-- In every run in which no request writes behind its clear, a replica that does not lead and
has nothing in progress holds nothing. -/
theorem empty_of_orderly (leaderElection : Bool) (planner : List AgentInfo → Option Plan)
    (ttl : Int) (st : State)
    (run : Reaches (step leaderElection planner) (fun st a => orderly st a = true) (initial ttl) st)
    (follower : st.leader = false) (quiet : st.Quiet) : st.Empty := by
  have inv : Inv st :=
    run.invariant (inv_initial ttl) fun _ _ _ inv fits moved => inv.step fits moved
  have nothing : ∀ clears, ¬ st.Owned clears := by
    rintro clears (leads | ⟨d, c, hd, -⟩)
    · rw [follower] at leads
      cases leads
    · rw [quiet.2.2 d] at hd
      cases hd
  refine ⟨fun id => ?_, ?_, fun id => ?_⟩
  · exact Option.eq_none_iff_forall_not_mem.mpr fun a ha => nothing _ (inv.registry id a ha)
  · by_contra held
    exact nothing _ (inv.plan held)
  · exact Option.eq_none_iff_forall_not_mem.mpr fun specs hs => nothing _ (inv.external id specs hs)

def noPlan : List AgentInfo → Option Plan := fun _ => none

/-- A Register and a PUT that pass the gate before a demotion; the writes come after `early` of
the four demotion steps. -/
def demotionAt (early : Nat) : List Action :=
  let demotion := [.setLeader 1 false, .clear 1, .clear 1, .clear 1]
  let writes := [.mutate 0 none 0, .setPeerPlan 0, .applyPut 0 .stored []]
  [.setLeader 0 true, .beginRegister 0 { id := "a", nodeName := "n", zone := "z" },
    .beginPut 0 (AList.singleton "a"
      [⟨"d", ⟨"web", "host", "192.0.2.1", 443⟩, "tcp", 5000000000, 1000000000, ""⟩])] ++
    demotion.take early ++ writes ++ demotion.drop early

theorem State.quiet_of_entries {st : State}
    (idle : st.registers.entries = [] ∧ st.puts.entries = [] ∧ st.demotions.entries = []) :
    st.Quiet :=
  ⟨GoMap.lookup_of_entries_nil idle.1, GoMap.lookup_of_entries_nil idle.2.1,
    GoMap.lookup_of_entries_nil idle.2.2⟩

theorem empty_of_orderly_demotion :
    ∃ st, Reaches (step true noPlan) (fun st a => orderly st a = true) (initial 60) st ∧
      st.leader = false ∧ st.Quiet ∧ st.Empty := by
  let st := (exec (guarded (step true noPlan) fun st a => orderly st a = true) (initial 60)
    (demotionAt 1)).get (by decide)
  have run : Reaches (step true noPlan) (fun st a => orderly st a = true) (initial 60) st :=
    Reaches.of_exec (Option.some_get _).symm
  have quiet : st.Quiet := State.quiet_of_entries (by decide)
  exact ⟨st, run, by decide, quiet, empty_of_orderly true noPlan 60 st run (by decide) quiet⟩

/-- Both requests were admitted by the leader and write after the demotion has cleared
everything: the demoted replica keeps an agent and an assignment. -/
theorem demotion_first_not_empty :
    ∃ st, exec (step true noPlan) (initial 60) (demotionAt 4) = some st ∧ st.leader = false ∧
      st.Quiet ∧ ¬ st.Empty := by
  let st := (exec (step true noPlan) (initial 60) (demotionAt 4)).get (by decide)
  have quiet : st.Quiet := State.quiet_of_entries (by decide)
  refine ⟨st, (Option.some_get _).symm, by decide, quiet, fun empty => ?_⟩
  exact absurd (empty.1 "a") (by decide)

end Kconmon.Controller.Leadership
