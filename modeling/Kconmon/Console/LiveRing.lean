import Mathlib.Algebra.Order.Ring.Nat
import Mathlib.Data.Int.ConditionallyCompleteOrder
import Mathlib.Data.List.Dedup
import Mathlib.Data.List.Induction
import Mathlib.Data.Prod.Lex
import Mathlib.Order.ConditionallyCompleteLattice.Basic

/-!
# The browser's live event ring

`web/src/lib/live-events.ts` keeps the newest `LIVE_RING_CAP` live events, newest first. A batch
of arrivals is deduplicated against the ids the ring holds, sorted, and merged into the ring with
the cap applied as the merge goes.

The duplicate check sees the ring only, so an event the cap pushed out may enter a later merge
again. It is then below a full ring and is cut off again, which is why the ring is a function of
the set of events that arrived.
-/

namespace Kconmon.Console.LiveRing

/-- The fields of a live event that the ring reads. -/
structure LiveEvent where
  id : String
  timestamp : String
  seq : Int
  deriving DecidableEq

/-- A point of time as a number of JavaScript. -/
inductive Time where
  | negInfinity
  | instant (ms : Int)
  deriving DecidableEq

namespace Time

/-- `a > b` -/
def gt : Time → Time → Bool
  | instant s, instant t => decide (s > t)
  | instant _, negInfinity => true
  | negInfinity, _ => false

def toBot : Time → WithBot Int
  | negInfinity => ⊥
  | instant ms => (ms : WithBot Int)

theorem gt_self (a : Time) : a.gt a = false := by
  cases a <;> simp [gt]

theorem gt_iff (a b : Time) : a.gt b = true ↔ b.toBot < a.toBot := by
  cases a <;> cases b <;> simp [gt, toBot]

theorem toBot_injective : Function.Injective toBot := by
  intro a b same
  cases a <;> cases b <;> simp_all [toBot]

end Time

/-- `LIVE_RING_CAP`. -/
def liveRingCap : Nat := 2000

variable (parse : String → Option Int)

/-- `timeOf`: the parsed timestamp, and minus infinity where it does not parse. -/
def timeOf (e : LiveEvent) : Time :=
  match parse e.timestamp with
  | none => .negInfinity
  | some t => .instant t

/-- `compareDesc`: the time leads and `seq` breaks ties. -/
def compareDesc (a b : LiveEvent) : Int :=
  if timeOf parse a ≠ timeOf parse b then
    if (timeOf parse a).gt (timeOf parse b) then -1 else 1
  else if a.seq ≠ b.seq then
    if a.seq > b.seq then -1 else 1
  else 0

/-- `isAbove`. -/
def isAbove (a b : LiveEvent) : Bool := decide (compareDesc parse a b < 0)

/-- One pass of the loop over the arrivals; the state is `seen` and `fresh`. -/
def freshStep (acc : List String × List LiveEvent) (e : LiveEvent) :
    List String × List LiveEvent :=
  if e.id ≠ "" then
    if e.id ∈ acc.1 then acc else (e.id :: acc.1, acc.2 ++ [e])
  else (acc.1, acc.2 ++ [e])

/-- The arrivals that are new to the ring. -/
def fresh (prev incoming : List LiveEvent) : List LiveEvent :=
  (incoming.foldl freshStep (prev.map (·.id), [])).2

/-- The three `while` loops of the merge, with `room` places left in `next`. -/
def mergeInto : Nat → List LiveEvent → List LiveEvent → List LiveEvent
  | 0, _, _ => []
  | room + 1, [], later => later.take (room + 1)
  | room + 1, p :: prev, [] => (p :: prev).take (room + 1)
  | room + 1, p :: prev, f :: later =>
    if isAbove parse f p then f :: mergeInto room (p :: prev) later
    else p :: mergeInto room prev (f :: later)
  termination_by room => room

/-- `pushEvents`. -/
def pushEvents (prev incoming : List LiveEvent) : List LiveEvent :=
  if incoming.length = 0 then prev
  else
    let new := fresh prev incoming
    if new.length = 0 then prev
    else mergeInto parse liveRingCap prev
      (new.mergeSort fun a b => decide (compareDesc parse a b ≤ 0))

/-! ## The order of the feed -/

/-- The key the feed is ordered by. -/
def key (e : LiveEvent) : WithBot Int ×ₗ Int := toLex ((timeOf parse e).toBot, e.seq)

/-- The order of the feed: `a` may stand before `b`. -/
def newer (a b : LiveEvent) : Bool := decide (compareDesc parse a b ≤ 0)

/-- The distinct events of a list, newest first. -/
def newestFirst (events : List LiveEvent) : List LiveEvent := events.dedup.mergeSort (newer parse)

theorem compareDesc_lt_zero_iff (a b : LiveEvent) :
    compareDesc parse a b < 0 ↔ key parse b < key parse a := by
  rw [key, key, Prod.Lex.toLex_lt_toLex, ← Time.gt_iff, Time.toBot_injective.eq_iff]
  unfold compareDesc
  split_ifs <;> grind [Time.gt_self]

theorem compareDesc_le_zero_iff (a b : LiveEvent) :
    compareDesc parse a b ≤ 0 ↔ key parse b ≤ key parse a := by
  rw [key, key, Prod.Lex.toLex_le_toLex, ← Time.gt_iff, Time.toBot_injective.eq_iff]
  unfold compareDesc
  split_ifs <;> grind [Time.gt_self]

@[simp, grind =]
theorem isAbove_iff (a b : LiveEvent) : isAbove parse a b = true ↔ key parse b < key parse a := by
  simp [isAbove, compareDesc_lt_zero_iff]

@[simp, grind =]
theorem newer_iff (a b : LiveEvent) : newer parse a b = true ↔ key parse b ≤ key parse a := by
  simp [newer, compareDesc_le_zero_iff]

theorem newer_trans (a b c : LiveEvent) :
    newer parse a b = true → newer parse b c = true → newer parse a c = true := by
  grind

theorem newer_total (a b : LiveEvent) : (newer parse a b || newer parse b a) = true := by
  have := le_total (key parse a) (key parse b)
  grind

/-! ## The merge -/

/-- The capped merge is the first part of the merge of the two lists. -/
theorem mergeInto_eq (room : Nat) (prev later : List LiveEvent) :
    mergeInto parse room prev later = (prev.merge later (newer parse)).take room := by
  fun_induction mergeInto parse room prev later
  case case1 => simp
  case case2 => simp
  case case3 => simp
  case case4 room p prev f later above ih =>
    have behind : newer parse p f = false := by grind
    simp [behind, ih]
  case case5 room p prev f later above ih =>
    have ahead : newer parse p f = true := by grind
    simp [ahead, ih]

/-- The merge never looks past the first `room` events of the ring. -/
theorem mergeInto_take (room wide : Nat) (prev later : List LiveEvent) (fits : room ≤ wide) :
    mergeInto parse room (prev.take wide) later = mergeInto parse room prev later := by
  fun_induction mergeInto parse room prev later generalizing wide
  case case1 => simp [mergeInto]
  case case2 => simp [mergeInto]
  case case3 room p prev =>
    obtain ⟨wide, rfl⟩ : ∃ n, wide = n + 1 := ⟨wide - 1, by omega⟩
    simp only [List.take_succ_cons, mergeInto, List.take_take]
    rw [Nat.min_eq_left (by omega)]
  case case4 room p prev f later above ih =>
    obtain ⟨wide, rfl⟩ : ∃ n, wide = n + 1 := ⟨wide - 1, by omega⟩
    have := ih (wide + 1) (by omega)
    simp_all [mergeInto]
  case case5 room p prev f later above ih =>
    obtain ⟨wide, rfl⟩ : ∃ n, wide = n + 1 := ⟨wide - 1, by omega⟩
    have := ih wide (by omega)
    simp_all [mergeInto]

/-- Arrivals below a full ring leave it as it is. -/
theorem mergeInto_below (room : Nat) (prev later : List LiveEvent) (full : room ≤ prev.length)
    (below : ∀ f ∈ later, ∀ p ∈ prev, key parse f ≤ key parse p) :
    mergeInto parse room prev later = prev.take room := by
  fun_induction mergeInto parse room prev later
  case case1 => simp
  case case2 => simp_all
  case case3 => simp
  case case4 room p prev f later above ih =>
    have := below f (by simp) p (by simp)
    grind
  case case5 room p prev f later above ih =>
    simp only [List.take_succ_cons, List.cons.injEq, true_and]
    exact ih (by simpa using full) (by grind)

/-- Arrivals that are below a full ring may be left out of the merge. -/
theorem mergeInto_filter (room : Nat) (prev later evicted : List LiveEvent)
    (full : room ≤ prev.length)
    (sorted : later.Pairwise fun a b => newer parse a b = true)
    (below : ∀ e ∈ evicted, ∀ p ∈ prev, key parse e ≤ key parse p) :
    mergeInto parse room prev later =
      mergeInto parse room prev (later.filter fun f => decide (f ∉ evicted)) := by
  fun_induction mergeInto parse room prev later
  case case1 => simp [mergeInto]
  case case2 => simp_all
  case case3 => simp [mergeInto]
  case case4 room p prev f later above ih =>
    have kept : f ∉ evicted := fun out => by
      have := below f out p (by simp)
      grind
    have rest := ih (by simp only [List.length_cons] at full ⊢; omega) (by grind) below
    simp [mergeInto, kept, above, rest]
  case case5 room p prev f later above ih =>
    by_cases out : f ∈ evicted
    · -- Everything from `f` on is below the ring, on both sides.
      have under : ∀ g ∈ f :: later, ∀ q ∈ p :: prev, key parse g ≤ key parse q := by
        intro g hg q hq
        have ordered : key parse g ≤ key parse f := by
          rcases List.mem_cons.1 hg with rfl | behind
          · exact le_rfl
          · exact (newer_iff parse f g).1 (List.rel_of_pairwise_cons sorted behind)
        exact ordered.trans (below f out q hq)
      rw [mergeInto_below parse (room + 1) (p :: prev) _ full (by grind), List.take_succ_cons,
        mergeInto_below parse room prev (f :: later) (by simpa using full) (by grind)]
    · have rest := ih (by simpa using full) sorted (by grind)
      simp only [decide_not] at rest
      simp [mergeInto, out, above, rest]

/-! ## What is new -/

/-- Events whose ids identify them and whose keys tell them apart. -/
structure Identified (events : List LiveEvent) : Prop where
  named : ∀ e ∈ events, e.id ≠ ""
  sameEvent : ∀ a ∈ events, ∀ b ∈ events, a.id = b.id → a = b
  apart : ∀ a ∈ events, ∀ b ∈ events, a.id ≠ b.id → key parse a ≠ key parse b

variable {parse}

variable {events : List LiveEvent}

theorem Identified.eq_of_key (known : Identified parse events) {a b : LiveEvent} (ha : a ∈ events)
    (hb : b ∈ events) (same : key parse a = key parse b) : a = b := by
  obtain ⟨-, sameEvent, apart⟩ := known
  grind

/-- What the loop over the arrivals has collected. -/
structure Collected (prev met : List LiveEvent) (acc : List String × List LiveEvent) : Prop where
  seen : ∀ i, i ∈ acc.1 ↔ i ∈ prev.map (·.id) ∨ i ∈ met.map (·.id)
  fresh : ∀ e, e ∈ acc.2 ↔ e ∈ met ∧ e.id ∉ prev.map (·.id)
  nodup : acc.2.Nodup

theorem collected_foldl (known : Identified parse events) (prev incoming : List LiveEvent)
    (arrived : ∀ e ∈ incoming, e ∈ events) :
    Collected prev incoming (incoming.foldl freshStep (prev.map (·.id), [])) := by
  obtain ⟨named, sameEvent, -⟩ := known
  induction incoming using List.reverseRecOn with
  | nil => constructor <;> simp
  | append_singleton incoming e ih =>
    obtain ⟨seen, fresh, nodup⟩ := ih (by grind)
    rw [List.foldl_append, List.foldl_cons, List.foldl_nil]
    generalize incoming.foldl freshStep (prev.map (·.id), []) = acc at *
    have ided := named e (arrived e (by simp))
    -- An arrival met before is the same event again.
    have again : e.id ∈ incoming.map (·.id) → e ∈ incoming := by
      intro met
      obtain ⟨a, ha, same⟩ := List.mem_map.1 met
      rw [← sameEvent a (arrived a (by simp [ha])) e (arrived e (by simp)) same]
      exact ha
    rw [freshStep, if_pos ided]
    split_ifs with met <;> constructor <;> grind

/-- The new arrivals are the ones the ring does not hold, each once. -/
theorem mem_fresh {prev incoming : List LiveEvent} (known : Identified parse events)
    (held : ∀ e ∈ prev, e ∈ events) (arrived : ∀ e ∈ incoming, e ∈ events) (e : LiveEvent) :
    e ∈ fresh prev incoming ↔ e ∈ incoming ∧ e ∉ prev := by
  obtain ⟨-, fresh, -⟩ := collected_foldl known prev incoming arrived
  obtain ⟨-, sameEvent, -⟩ := known
  rw [LiveRing.fresh, fresh]
  grind

/-! ## The ring -/

theorem pairwise_newestFirst (events : List LiveEvent) :
    (newestFirst parse events).Pairwise fun a b => newer parse a b = true :=
  List.pairwise_mergeSort (newer_trans parse) (newer_total parse) _

theorem mem_newestFirst {e : LiveEvent} : e ∈ newestFirst parse events ↔ e ∈ events := by
  simp [newestFirst]

theorem nodup_newestFirst (events : List LiveEvent) : (newestFirst parse events).Nodup := by
  simp [newestFirst, (List.mergeSort_perm _ _).nodup_iff, List.nodup_dedup]

/-- A list in the order of the feed that holds each event once is fixed by its members. -/
theorem eq_newestFirst {met ring : List LiveEvent} (known : Identified parse events)
    (arrived : ∀ e ∈ met, e ∈ events) (sorted : ring.Pairwise fun a b => newer parse a b = true)
    (nodup : ring.Nodup) (same : ∀ e, e ∈ ring ↔ e ∈ met) : ring = newestFirst parse met := by
  refine List.Perm.eq_of_pairwise ?_ sorted (pairwise_newestFirst met) ?_
  · intro a b ha hb ab ba
    rw [newer_iff] at ab ba
    exact known.eq_of_key (arrived a ((same a).1 ha)) (arrived b (mem_newestFirst.1 hb))
      (le_antisymm ba ab)
  · rw [List.perm_ext_iff_of_nodup nodup (nodup_newestFirst met)]
    intro e
    rw [same, mem_newestFirst]

/-- Merging what never arrived before into all that did gives all that has arrived now. -/
theorem merge_newestFirst {met incoming later : List LiveEvent} (known : Identified parse events)
    (arrived : ∀ e ∈ met ++ incoming, e ∈ events)
    (sorted : later.Pairwise fun a b => newer parse a b = true) (nodup : later.Nodup)
    (new : ∀ e, e ∈ later ↔ e ∈ incoming ∧ e ∉ met) :
    (newestFirst parse met).merge later (newer parse) = newestFirst parse (met ++ incoming) := by
  refine eq_newestFirst known arrived ?_ ?_ ?_
  · exact List.pairwise_merge (newer_trans parse) (newer_total parse) _ _
      (pairwise_newestFirst met) sorted
  · rw [(List.merge_perm_append _).nodup_iff, List.nodup_append]
    refine ⟨nodup_newestFirst met, nodup, fun a ha b hb same => ?_⟩
    rw [mem_newestFirst] at ha
    grind
  · intro e
    rw [(List.merge_perm_append _).mem_iff, List.mem_append, mem_newestFirst, new, List.mem_append]
    tauto

/-- A ring within its cap is merged with what is new to it, also where nothing is. -/
theorem pushEvents_eq {ring : List LiveEvent} (short : ring.take liveRingCap = ring)
    (incoming : List LiveEvent) : pushEvents parse ring incoming =
      mergeInto parse liveRingCap ring ((fresh ring incoming).mergeSort (newer parse)) := by
  by_cases stale : fresh ring incoming = []
  · simp [pushEvents, stale, mergeInto_eq, short]
  · have some : incoming ≠ [] := by
      rintro rfl
      exact stale rfl
    simp only [pushEvents, List.length_eq_zero_iff, some, stale, if_false]
    rfl

/-- What the cap pushed out lies below a full ring, so arriving again it changes nothing. -/
theorem mergeInto_evicted (met : List LiveEvent) {later : List LiveEvent}
    (sorted : later.Pairwise fun a b => newer parse a b = true) :
    mergeInto parse liveRingCap ((newestFirst parse met).take liveRingCap) later =
      mergeInto parse liveRingCap ((newestFirst parse met).take liveRingCap)
        (later.filter fun f => decide (f ∉ (newestFirst parse met).drop liveRingCap)) := by
  by_cases full : liveRingCap ≤ ((newestFirst parse met).take liveRingCap).length
  · refine mergeInto_filter parse liveRingCap _ later _ full sorted ?_
    have ordered := @pairwise_newestFirst parse met
    rw [← List.take_append_drop liveRingCap (newestFirst parse met),
      List.pairwise_append] at ordered
    grind
  · have none : (newestFirst parse met).drop liveRingCap = [] := by
      rw [List.length_take] at full
      rw [List.drop_eq_nil_iff]
      omega
    simp [none]

/-- One batch: the ring of what had arrived becomes the ring of what has arrived now. -/
theorem pushEvents_newest {met incoming : List LiveEvent} (known : Identified parse events)
    (arrived : ∀ e ∈ met ++ incoming, e ∈ events) :
    pushEvents parse ((newestFirst parse met).take liveRingCap) incoming =
      (newestFirst parse (met ++ incoming)).take liveRingCap := by
  set ring := (newestFirst parse met).take liveRingCap with ring_eq
  set evicted := (newestFirst parse met).drop liveRingCap with evicted_eq
  have members (e : LiveEvent) : e ∈ met ↔ e ∈ ring ∨ e ∈ evicted := by
    rw [← @mem_newestFirst parse, ← List.take_append_drop liveRingCap (newestFirst parse met),
      List.mem_append]
  have held : ∀ e ∈ ring, e ∈ events := fun e he =>
    arrived e (List.mem_append_left _ ((members e).2 (.inl he)))
  have came : ∀ e ∈ incoming, e ∈ events := fun e he => arrived e (List.mem_append_right _ he)
  have short : ring.take liveRingCap = ring := by rw [ring_eq, List.take_take, Nat.min_self]
  rw [pushEvents_eq short]
  set later := (fresh ring incoming).mergeSort (newer parse)
  have sorted : later.Pairwise fun a b => newer parse a b = true :=
    List.pairwise_mergeSort (newer_trans parse) (newer_total parse) _
  have nodup : later.Nodup :=
    (List.mergeSort_perm _ _).nodup_iff.2 (collected_foldl known ring incoming came).nodup
  have new (e : LiveEvent) : e ∈ later.filter (fun f => decide (f ∉ evicted)) ↔
      e ∈ incoming ∧ e ∉ met := by
    rw [List.mem_filter, (List.mergeSort_perm _ _).mem_iff, mem_fresh known held came, members]
    simp [and_assoc]
  rw [mergeInto_evicted met sorted, mergeInto_take parse _ _ _ _ le_rfl, mergeInto_eq,
    merge_newestFirst known arrived (sorted.filter _) (nodup.filter _) new]

/-- The ring after the batches. -/
theorem foldl_pushEvents (known : Identified parse events) (batches : List (List LiveEvent))
    (arrived : ∀ e ∈ batches.flatten, e ∈ events) : batches.foldl (pushEvents parse) [] =
      (newestFirst parse batches.flatten).take liveRingCap := by
  induction batches using List.reverseRecOn with
  | nil => simp [newestFirst]
  | append_singleton batches incoming ih =>
    rw [List.foldl_append, List.foldl_cons, List.foldl_nil, ih (by grind)]
    simp only [List.flatten_append, List.flatten_cons, List.flatten_nil, List.append_nil] at *
    exact pushEvents_newest known arrived

/-- The ring depends only on what arrived. -/
theorem ring_newest (parse : String → Option Int) (events : List LiveEvent)
    (known : Identified parse events) (batches : List (List LiveEvent))
    (same : ∀ e, e ∈ batches.flatten ↔ e ∈ events) :
    batches.foldl (pushEvents parse) [] = (newestFirst parse events).take 2000 ∧
      (newestFirst parse events).Pairwise (fun a b => key parse b < key parse a) ∧
      ∀ e, e ∈ newestFirst parse events ↔ e ∈ events := by
  refine ⟨?_, ?_, fun e => mem_newestFirst⟩
  · rw [foldl_pushEvents known batches fun e he => (same e).1 he,
      eq_newestFirst known (fun e he => he) (pairwise_newestFirst _) (nodup_newestFirst _)
        fun e => mem_newestFirst.trans (same e)]
    rfl
  · refine ((pairwise_newestFirst events).and (nodup_newestFirst events)).imp_of_mem ?_
    rintro a b ha hb ⟨ordered, distinct⟩
    refine lt_of_le_of_ne ((newer_iff parse a b).1 ordered) fun equal => distinct ?_
    exact (known.eq_of_key (mem_newestFirst.1 hb) (mem_newestFirst.1 ha) equal).symm

/-- Two events, the later one first to arrive, and the earlier one delivered twice. -/
theorem ring_newest_reordered :
    let parse : String → Option Int := String.toInt?
    let old : LiveEvent := ⟨"a", "10", 1⟩
    let late : LiveEvent := ⟨"b", "10", 2⟩
    [[late, old], [old]].foldl (pushEvents parse) [] = (newestFirst parse [old, late]).take 2000 :=
  (ring_newest String.toInt? [⟨"a", "10", 1⟩, ⟨"b", "10", 2⟩]
    ⟨by simp, by simp, by simp [key]⟩ [[⟨"b", "10", 2⟩, ⟨"a", "10", 1⟩], [⟨"a", "10", 1⟩]]
    (by simp [or_comm])).1

end Kconmon.Console.LiveRing
