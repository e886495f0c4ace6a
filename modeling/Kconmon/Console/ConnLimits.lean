import Mathlib.Data.Finset.Max
import Kconmon.Lib.GoMap

/-!
# Connection limits of the hub

`registerLimited` takes a slot under every limit of a connection, or none if one is full, and
writes the keys on the client. `unregister` and `dropSlowClient` give the slots back through that
list when they find the client registered, and `closeAllClients` forgets all of them at once.
Each step here is the part of a call that runs under the hub's lock, so a run is any interleaving
of calls. A client is numbered by the order of the calls that made it; `State.heap` are the
clients that any goroutine may still hold, registered or not.
-/
namespace Kconmon.Console.Ws
open Lib

structure ConnLimit where
  name : String
  key : String
  max : Int
  reason : String
  deriving DecidableEq

/-- `limitKeys` of a client, and the limits it was admitted under. -/
structure LimitedClient where
  limitKeys : List String := []
  admittedUnder : List ConnLimit := []
  deriving DecidableEq

namespace Limits

structure State where
  clients : Finset Nat := ∅
  limitUse : GoMap String Int := ∅
  closed : Bool := false
  heap : Nat → LimitedClient := fun _ => {}
  /-- The number the next client gets. -/
  next : Nat := 0

def useOf (limitUse : GoMap String Int) (key : String) : Int := (limitUse.lookup key).getD 0

/-- `h.limitUse[key]++` -/
def take (limitUse : GoMap String Int) (key : String) : GoMap String Int :=
  limitUse.insert key (useOf limitUse key + 1)

/-- `h.limitUse[key]--`, and the entry is deleted when nothing is left. -/
def giveBack (limitUse : GoMap String Int) (key : String) : GoMap String Int :=
  let limitUse := limitUse.insert key (useOf limitUse key - 1)
  if useOf limitUse key ≤ 0 then limitUse.erase key else limitUse

/-- The limits a slot is taken under. -/
def bounding (limits : List ConnLimit) : List ConnLimit := limits.filter fun l => decide (l.max > 0)

/-- The client takes a slot under each of the limits and is registered. -/
def State.register (h : State) (taken : List ConnLimit) : State :=
  let c : LimitedClient := { limitKeys := taken.map ConnLimit.key, admittedUnder := taken }
  { h with
    clients := insert h.next h.clients
    limitUse := c.limitKeys.foldl take h.limitUse
    heap := Function.update h.heap h.next c
    next := h.next + 1 }

/-- `registerLimited`: the limit that is full, if one is. -/
def registerLimited (h : State) (limits : List ConnLimit) : State × Option ConnLimit :=
  if h.closed then ({ h with next := h.next + 1 }, none)
  else
    match limits.find? fun l => decide (l.max > 0 ∧ useOf h.limitUse l.key ≥ l.max) with
    | some full => (h, some full)
    | none => (h.register (bounding limits), none)

/-- `releaseLimitsLocked` -/
def releaseLimitsLocked (h : State) (c : Nat) : State :=
  { h with
    limitUse := (h.heap c).limitKeys.foldl giveBack h.limitUse
    heap := Function.update h.heap c { h.heap c with limitKeys := [] } }

/-- The locked part of `unregister` and of `dropSlowClient`. -/
def unregister (h : State) (c : Nat) : State :=
  if c ∈ h.clients then releaseLimitsLocked { h with clients := h.clients.erase c } c else h

def dropSlowClient (h : State) (c : Nat) : State := unregister h c

def closeAllClients (h : State) : State :=
  { h with closed := true, clients := ∅, limitUse := ∅ }

inductive Step where
  | registerLimited (limits : List ConnLimit)
  | unregister (c : Nat)
  | dropSlowClient (c : Nat)
  | closeAllClients
  deriving DecidableEq

def State.apply (h : State) : Step → State
  | .registerLimited limits => (Limits.registerLimited h limits).1
  | .unregister c => Limits.unregister h c
  | .dropSlowClient c => Limits.dropSlowClient h c
  | .closeAllClients => Limits.closeAllClients h

def run (steps : List Step) : State := steps.foldl State.apply {}

/-- The limits of one connection have different keys. -/
def Step.Distinct : Step → Prop
  | .registerLimited limits => (limits.map ConnLimit.key).Nodup
  | _ => True

/-- The registered clients that hold a slot under the key. -/
def State.holders (h : State) (key : String) : Finset Nat :=
  h.clients.filter fun c => key ∈ (h.heap c).limitKeys

/-! ## Counting -/

/-- The map holds the counts, and no zero. -/
def Counts (limitUse : GoMap String Int) (count : String → Nat) : Prop :=
  ∀ key, limitUse.lookup key = if count key = 0 then none else some (count key : Int)

variable {limitUse : GoMap String Int} {count : String → Nat}

section
variable (counts : Counts limitUse count)
include counts

theorem Counts.useOf_eq (key : String) : useOf limitUse key = count key := by
  unfold useOf
  rw [counts key]
  split_ifs with none <;> simp [none]

theorem Counts.take (key : String) :
    Counts (Limits.take limitUse key) fun k => if k = key then count k + 1 else count k := by
  intro k
  rw [Limits.take, counts.useOf_eq]
  have := counts k
  grind

theorem Counts.giveBack {key : String} (held : 0 < count key) :
    Counts (Limits.giveBack limitUse key) fun k => if k = key then count k - 1 else count k := by
  intro k
  have := counts k
  have use := counts.useOf_eq key
  unfold Limits.giveBack useOf at *
  grind

theorem Counts.takeAll {keys : List String} (distinct : keys.Nodup) :
    Counts (keys.foldl Limits.take limitUse) fun k => if k ∈ keys then count k + 1 else count k :=
      by
  induction keys generalizing limitUse count with
  | nil => simpa using counts
  | cons key keys ih =>
    obtain ⟨fresh, distinct⟩ := List.nodup_cons.mp distinct
    have rest := ih (counts.take key) distinct
    intro k
    rw [List.foldl_cons, rest k]
    grind

theorem Counts.giveBackAll {keys : List String}
    (distinct : keys.Nodup) (held : ∀ k ∈ keys, 0 < count k) :
    Counts (keys.foldl Limits.giveBack limitUse)
      fun k => if k ∈ keys then count k - 1 else count k := by
  induction keys generalizing limitUse count with
  | nil => simpa using counts
  | cons key keys ih =>
    obtain ⟨fresh, distinct⟩ := List.nodup_cons.mp distinct
    have rest := ih (counts.giveBack (held key (by simp))) distinct (by grind)
    intro k
    rw [List.foldl_cons, rest k]
    grind

end

/-! ## Every run -/

/-- What every step preserves. The last part orders the holders of a key by their admission:
each was admitted while the earlier ones and itself were within its limit. -/
structure Inv (h : State) : Prop where
  made : ∀ c ∈ h.clients, c < h.next
  counts : Counts h.limitUse fun key => (h.holders key).card
  distinct : ∀ c, (h.heap c).limitKeys.Nodup
  keys : ∀ c ∈ h.clients, (h.heap c).limitKeys = (h.heap c).admittedUnder.map ConnLimit.key
  within : ∀ c ∈ h.clients, ∀ l ∈ (h.heap c).admittedUnder,
    (((h.holders l.key).filter (· ≤ c)).card : Int) ≤ l.max

variable {h : State}

theorem holders_register (made : ∀ d ∈ h.clients, d < h.next) (taken : List ConnLimit)
    (key : String) : (h.register taken).holders key =
      if key ∈ taken.map ConnLimit.key then insert h.next (h.holders key) else h.holders key := by
  ext d
  have := made d
  by_cases own : d = h.next <;> simp only [State.holders, State.register] <;> grind

theorem holders_release {c : Nat} (key : String) :
    (releaseLimitsLocked { h with clients := h.clients.erase c } c).holders key =
      (h.holders key).erase c := by
  ext d
  by_cases own : d = c <;> simp only [State.holders, releaseLimitsLocked] <;> grind

/-- A client is added where every limit has room. -/
theorem Inv.register (inv : Inv h) {taken : List ConnLimit}
    (apart : (taken.map ConnLimit.key).Nodup) (room : ∀ l ∈ taken, useOf h.limitUse l.key < l.max) :
    Inv (h.register taken) := by
  obtain ⟨made, counts, distinct, keys, within⟩ := inv
  have fresh : h.next ∉ h.clients := fun listed => (made _ listed).false
  have absent (key : String) : h.next ∉ h.holders key := fun held =>
    fresh (Finset.mem_filter.mp held).1
  constructor
  case made => grind [State.register]
  case counts =>
    have same : (fun key => ((h.register taken).holders key).card) = fun key =>
        if key ∈ taken.map ConnLimit.key then (h.holders key).card + 1
        else (h.holders key).card := by
      funext key
      rw [holders_register made]
      split_ifs
      · exact Finset.card_insert_of_notMem (absent key)
      · rfl
    rw [same]
    exact counts.takeAll apart
  case distinct =>
    intro c
    by_cases new : c = h.next <;> simp [State.register, new, apart, distinct]
  case keys =>
    intro c listed
    by_cases new : c = h.next
    · simp [State.register, new]
    · have old : c ∈ h.clients := by simpa [State.register, new] using listed
      simpa [State.register, new] using keys c old
  case within =>
    intro c listed l under
    rw [holders_register made]
    by_cases new : c = h.next
    · -- The newcomer: the holders so far left room for one more.
      have mine : l ∈ taken := by simpa [State.register, new] using under
      have space := room l mine
      rw [counts.useOf_eq] at space
      rw [if_pos (List.mem_map_of_mem mine)]
      have all := Finset.card_filter_le (insert h.next (h.holders l.key)) (· ≤ c)
      rw [Finset.card_insert_of_notMem (absent l.key)] at all
      omega
    · -- An earlier client: the newcomer is not counted.
      have old : c ∈ h.clients := by simpa [State.register, new] using listed
      have bound := within c old l (by simpa [State.register, new] using under)
      have later : ¬ h.next ≤ c := by have := made c old; omega
      split_ifs
      · rwa [Finset.filter_insert, if_neg later]
      · exact bound

theorem Inv.registerLimited (inv : Inv h) {limits : List ConnLimit}
    (apart : (limits.map ConnLimit.key).Nodup) : Inv (Limits.registerLimited h limits).1 := by
  unfold Limits.registerLimited
  split_ifs
  · obtain ⟨made, counts, distinct, keys, within⟩ := inv
    exact ⟨fun c listed => Nat.lt_succ_of_lt (made c listed), counts, distinct, keys, within⟩
  · split
    · exact inv
    · rename_i none
      refine inv.register (apart.sublist (List.filter_sublist.map _)) fun l taken => ?_
      have bounded : l ∈ limits ∧ l.max > 0 := by simpa [bounding] using taken
      have free := List.find?_eq_none.mp none l bounded.1
      grind

theorem Inv.unregister (inv : Inv h) (c : Nat) : Inv (Limits.unregister h c) := by
  unfold Limits.unregister
  split_ifs with present
  · obtain ⟨made, counts, distinct, keys, within⟩ := inv
    have held : ∀ k ∈ (h.heap c).limitKeys, c ∈ h.holders k := by simp [State.holders, present]
    have positive : ∀ k ∈ (h.heap c).limitKeys, 0 < (h.holders k).card := fun k listed =>
      Finset.card_pos.mpr ⟨c, held k listed⟩
    constructor
    case made => grind [releaseLimitsLocked]
    case counts =>
      have same : (fun key => ((h.holders key).erase c).card) = fun key =>
          if key ∈ (h.heap c).limitKeys then (h.holders key).card - 1
          else (h.holders key).card := by
        funext key
        split_ifs with own
        · exact Finset.card_erase_of_mem (held key own)
        · have absent : c ∉ h.holders key := fun listed => own (Finset.mem_filter.mp listed).2
          rw [Finset.erase_eq_of_notMem absent]
      simp only [holders_release, same]
      exact counts.giveBackAll (distinct c) positive
    case distinct =>
      intro d
      by_cases own : d = c <;> simp [releaseLimitsLocked, own, distinct]
    case keys =>
      intro d listed
      obtain ⟨other, registered⟩ := Finset.mem_erase.mp listed
      simpa [releaseLimitsLocked, other] using keys d registered
    case within =>
      intro d listed l under
      obtain ⟨other, registered⟩ := Finset.mem_erase.mp listed
      have bound := within d registered l (by simpa [releaseLimitsLocked, other] using under)
      have fewer : (((h.holders l.key).erase c).filter (· ≤ d)).card ≤
          ((h.holders l.key).filter (· ≤ d)).card :=
        Finset.card_le_card (Finset.filter_subset_filter _ (Finset.erase_subset _ _))
      rw [holders_release]
      omega
  · exact inv

theorem inv_closeAllClients (inv : Inv h) : Inv (closeAllClients h) := by
  obtain ⟨-, -, distinct, -, -⟩ := inv
  have none (key : String) : (closeAllClients h).holders key = ∅ := Finset.filter_empty _
  constructor
  case distinct => exact distinct
  case counts =>
    intro key
    simp only [none, Finset.card_empty, if_true]
    rfl
  all_goals simp [closeAllClients]

theorem Inv.apply (inv : Inv h) {step : Step} (apart : step.Distinct) : Inv (h.apply step) := by
  cases step with
  | registerLimited limits => exact inv.registerLimited apart
  | unregister c => exact inv.unregister c
  | dropSlowClient c => exact inv.unregister c
  | closeAllClients => exact inv_closeAllClients inv

theorem inv_run (steps : List Step) (apart : ∀ step ∈ steps, step.Distinct) : Inv (run steps) := by
  induction steps using List.reverseRecOn with
  | nil =>
    constructor <;> simp [run, Counts, State.holders]
  | append_singleton steps step ih =>
    have before := ih fun s listed => apart s (List.mem_append_left _ listed)
    have after := before.apply (apart step (by simp))
    rwa [run, List.foldl_append] at *

/-- A refused connection leaves the hub as it was. -/
theorem registerLimited_refused {limits : List ConnLimit} {full : ConnLimit}
    (refused : (registerLimited h limits).2 = some full) : (registerLimited h limits).1 = h := by
  grind [registerLimited]

/-- The last admitted holder of a key was admitted with all the others. -/
theorem Inv.exists_bound (inv : Inv h) {key : String} (some : (h.holders key).Nonempty) :
    ∃ c ∈ h.holders key, ∃ l ∈ (h.heap c).admittedUnder, l.key = key ∧
      ((h.holders key).card : Int) ≤ l.max := by
  have last := (h.holders key).max'_mem some
  set c := (h.holders key).max' some
  obtain ⟨registered, held⟩ := Finset.mem_filter.mp last
  rw [inv.keys c registered] at held
  obtain ⟨l, under, rfl⟩ := List.mem_map.mp held
  refine ⟨c, last, l, under, rfl, ?_⟩
  have all : (h.holders l.key).filter (· ≤ c) = h.holders l.key :=
    Finset.filter_true_of_mem fun d listed => (h.holders l.key).le_max' d listed
  have bound := inv.within c registered l under
  rwa [all] at bound

/-- Connection limits are exact on every run. -/
theorem limits_exact (steps : List Step) (apart : ∀ step ∈ steps, step.Distinct) :
    let h := run steps
    (∀ key, h.limitUse.lookup key =
      if (h.holders key).card = 0 then none else some ((h.holders key).card : Int)) ∧
    (∀ key, (h.holders key).Nonempty → ∃ c ∈ h.holders key, ∃ l ∈ (h.heap c).admittedUnder,
      l.key = key ∧ ((h.holders key).card : Int) ≤ l.max) ∧
    (∀ key (max : Int), (h.holders key).Nonempty →
      (∀ c ∈ h.holders key, ∀ l ∈ (h.heap c).admittedUnder, l.key = key → l.max = max) →
      ((h.holders key).card : Int) ≤ max) ∧
    (∀ limits full, (registerLimited h limits).2 = some full → (registerLimited h limits).1 = h) ∧
    (h.clients = ∅ → h.limitUse = ∅) := by
  intro h
  have inv : Inv h := inv_run steps apart
  refine ⟨inv.counts, fun key some => inv.exists_bound some, ?_, ?_, ?_⟩
  · intro key max some common
    obtain ⟨c, holds, l, under, own, bound⟩ := inv.exists_bound some
    rwa [common c holds l under own] at bound
  · exact fun limits full refused => registerLimited_refused refused
  · intro gone
    have none (key : String) : key ∉ h.limitUse.keys := by
      have empty : h.holders key = ∅ := by simp [State.holders, gone]
      have unused := inv.counts key
      simp only [empty, Finset.card_empty, if_true] at unused
      exact AList.lookup_eq_none.mp unused
    exact AList.ext (List.map_eq_nil_iff.mp (List.eq_nil_iff_forall_not_mem.mpr none))

/-- Two clients under a limit of two, and one of them dropped twice. -/
theorem limits_exact_dropped :
    let limit : ConnLimit := ⟨"address", "addr:x", 2, "too many"⟩
    let h := run [.registerLimited [limit], .registerLimited [limit], .unregister 0,
      .dropSlowClient 0]
    ∀ key, h.limitUse.lookup key =
      if (h.holders key).card = 0 then none else some ((h.holders key).card : Int) :=
  (limits_exact [.registerLimited [⟨"address", "addr:x", 2, "too many"⟩],
    .registerLimited [⟨"address", "addr:x", 2, "too many"⟩], .unregister 0, .dropSlowClient 0]
    (by simp [Step.Distinct])).1

end Limits

end Kconmon.Console.Ws
