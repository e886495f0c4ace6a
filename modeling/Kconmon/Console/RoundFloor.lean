import Kconmon.Console.DispatchOrder
import Kconmon.Lib.Windows
import Mathlib.Data.List.Dedup
import Mathlib.Data.List.FinRange
import Mathlib.Data.List.Sublists

/-!
# What the ceiling of a run admits

`roundFloor` counts how often the wider of the two gates has to drain. The
dispatcher blocks on the head of its order, so it can need one window more.
`keepsCeiling_iff_windows` reduces the question to how the order is cut into
windows; for specs without typed node destinations, whose sources have nearly
equal numbers of pairs, `stalls` names the loads at which that happens.
-/
namespace Kconmon.Console.Checks
open Lib HeadOfLine

/-- The sources in the order in which their pairs are dispatched. -/
def dispatchedSources (pairs : List Pair) : List String :=
  (interleaveBySource pairs).map (sourceAt pairs)

/-- Whatever the probes take, up to `perPairTimeout` each, one round dispatches every
pair once and finishes it within the floor, and so before the deadline. -/
def KeepsCeiling (pairs : List Pair) (perPairTimeout : Nat) : Prop :=
  ∀ took : Nat → Nat, (∀ i, took i ≤ perPairTimeout) →
    ((dispatchRound pairs took).map Prod.fst).Perm (List.range pairs.length) ∧
    ∀ e ∈ dispatchRound pairs took,
      e.2 ≤ roundFloor pairs perPairTimeout ∧ e.2 < runDeadline pairs perPairTimeout 0

theorem roundFloor_lt_runDeadline (pairs : List Pair) (T : Nat) :
    roundFloor pairs T < runDeadline pairs T 0 := by
  simp [runDeadline, runDeadlineSlack, second]

/-! ## Reduction to windows -/

theorem fst_dispatchRound (pairs : List Pair) (took : Nat → Nat) :
    (dispatchRound pairs took).map Prod.fst = interleaveBySource pairs := by
  simp only [dispatchRound]
  exact List.map_fst_zip (by simp [length_taken_run])

theorem snd_dispatchRound (pairs : List Pair) (took : Nat → Nat) :
    (dispatchRound pairs took).map Prod.snd = (run maxConcurrency maxPerSourceConcurrency
        ((interleaveBySource pairs).map fun i => (sourceAt pairs i, took i))).taken.map Prod.snd :=
          by
  simp only [dispatchRound]
  exact List.map_snd_zip (by simp [length_taken_run])

variable {pairs : List Pair}

theorem keepsCeiling_iff_windows (some_pair : pairs ≠ []) {T : Nat} (pos : 0 < T) :
    KeepsCeiling pairs T ↔
      windows maxConcurrency maxPerSourceConcurrency (dispatchedSources pairs) ≤
        floorBatches pairs := by
  have pos_cap : 0 < maxConcurrency := by decide
  have pos_gate : 0 < maxPerSourceConcurrency := by decide
  constructor
  · intro keeps
    obtain ⟨-, finished⟩ := keeps (fun _ => T) fun _ => le_rfl
    have some_source : dispatchedSources pairs ≠ [] := by
      intro empty
      have := (perm_interleaveBySource pairs).length_eq
      rw [List.map_eq_nil_iff.mp empty, List.length_nil, List.length_range] at this
      exact some_pair (List.eq_nil_of_length_eq_zero this.symm)
    obtain ⟨x, started, last⟩ := exists_release_eq_windows_mul pos_cap pos_gate pos some_source
    have finish : x.2 ∈ (dispatchRound pairs fun _ => T).map Prod.snd := by
      rw [snd_dispatchRound]
      refine List.mem_map_of_mem ?_
      simpa [dispatchedSources, Function.comp_def] using started
    obtain ⟨e, mem, same⟩ := List.mem_map.mp finish
    have within := (finished e mem).1
    rw [same, last] at within
    exact Nat.le_of_mul_le_mul_right within pos
  · intro fits took short
    refine ⟨by rw [fst_dispatchRound]; exact perm_interleaveBySource pairs, fun e mem => ?_⟩
    have finish := List.mem_map_of_mem (f := Prod.snd) mem
    rw [snd_dispatchRound] at finish
    obtain ⟨x, started, same⟩ := List.mem_map.mp finish
    have within := release_le_windows_mul pos_cap pos_gate pos (by simpa using fun i _ => short i)
      started
    have sources :
      ((interleaveBySource pairs).map fun i => (sourceAt pairs i, took i)).map Prod.fst =
        dispatchedSources pairs := by
      rw [List.map_map]
      rfl
    rw [sources, same] at within
    have floor : e.2 ≤ roundFloor pairs T := within.trans (Nat.mul_le_mul_right _ fits)
    exact ⟨floor, floor.trans_lt (roundFloor_lt_runDeadline pairs T)⟩

/-! ## Nearly equal loads -/

section
variable {κ : Type} [DecidableEq κ]

variable {keys tail : List κ}

/-- Only the number of keys and the places of the last round's keys among them matter. -/
theorem exists_fin {m : Nat} (len : keys.length = m) (distinct : keys.Nodup)
    (sub : tail.Sublist keys) : ∃ f : Fin m → κ, f.Injective ∧ keys = (List.finRange m).map f ∧
      ∃ places : List (Fin m), places.Sublist (List.finRange m) ∧ tail = places.map f ∧
        ∀ b, windows 8 2 (rounds b keys ++ tail) =
          windows 8 2 (rounds b (List.finRange m) ++ places) := by
  subst len
  have inj : keys.get.Injective := List.nodup_iff_injective_get.mp distinct
  have all : keys = (List.finRange keys.length).map keys.get := (List.map_get_finRange keys).symm
  have part : tail.Sublist ((List.finRange keys.length).map keys.get) := by rwa [← all]
  obtain ⟨places, sub_places, rfl⟩ := List.sublist_map_iff.mp part
  refine ⟨keys.get, inj, all, places, sub_places, rfl, fun b => ?_⟩
  have repeated : rounds b keys = (rounds b (List.finRange keys.length)).map keys.get := by
    rw [← rounds_map, ← all]
  rw [repeated, ← List.map_append, windows_map inj]

theorem windows_period {m : Nat} (period w : Nat) (some_key : rounds period (List.finRange m) ≠ [])
    (count : windows 8 2 (rounds period (List.finRange m)) = w)
    (full : ∀ key ∈ List.finRange m,
      (pack 8 2 (rounds period (List.finRange m))).fits 8 2 key = false)
    (b : Nat) (places : List (Fin m)) : windows 8 2 (rounds b (List.finRange m) ++ places) =
      b / period * w + windows 8 2 (rounds (b % period) (List.finRange m) ++ places) := by
  have peeled := windows_rounds (by decide) (by decide) some_key full (b / period) (b % period)
    places fun key _ => List.mem_finRange key
  rwa [Nat.div_add_mod, count] at peeled

/-- Up to four keys: two rounds to a window. -/
theorem windows_few (few : keys.length ≤ 4) (distinct : keys.Nodup) (sub : tail.Sublist keys)
    (some_key : tail ≠ []) (b : Nat) : windows 8 2 (rounds b keys ++ tail) ≤ (b + 2) / 2 := by
  obtain ⟨f, -, -, places, sub_places, rfl, same⟩ := exists_fin rfl distinct sub
  have two_rounds : ∀ m ≤ 4, 0 < m →
      rounds 2 (List.finRange m) ≠ [] ∧ windows 8 2 (rounds 2 (List.finRange m)) = 1 ∧
      (∀ key ∈ List.finRange m, (pack 8 2 (rounds 2 (List.finRange m))).fits 8 2 key = false) ∧
      ∀ r < 2, ∀ places ∈ (List.finRange m).sublists,
        windows 8 2 (rounds r (List.finRange m) ++ places) ≤ 1 := by
    decide +kernel
  have pos : 0 < keys.length := by
    have := sub.length_le
    have := List.length_pos_iff.mpr some_key
    omega
  obtain ⟨nonempty, count, full, rest⟩ := two_rounds keys.length few pos
  have last := rest (b % 2) (Nat.mod_lt _ (by decide)) places (List.mem_sublists.mpr sub_places)
  rw [same, windows_period 2 1 nonempty count full]
  omega

theorem windows_six (six : keys.length = 6) (distinct : keys.Nodup) (sub : tail.Sublist keys)
    (b : Nat) : windows 8 2 (rounds b keys ++ tail) ≤ (b * 6 + tail.length + 7) / 8 := by
  obtain ⟨f, -, -, places, sub_places, rfl, same⟩ := exists_fin six distinct sub
  have last : ∀ r < 4, ∀ places ∈ (List.finRange 6).sublists,
      windows 8 2 (rounds r (List.finRange 6) ++ places) ≤ (r * 6 + places.length + 7) / 8 := by
    decide +kernel
  have rest := last (b % 4) (Nat.mod_lt _ (by decide)) places (List.mem_sublists.mpr sub_places)
  rw [same, windows_period 4 3 (by decide +kernel) (by decide +kernel)
    (by decide +kernel), List.length_map]
  omega

/-- From seven keys on no key comes up three times within a window's length. -/
theorem windows_many (many : 7 ≤ keys.length) (distinct : keys.Nodup) (sub : tail.Sublist keys)
    (b : Nat) : windows 8 2 (rounds b keys ++ tail) = (b * keys.length + tail.length + 7) / 8 := by
  have as_rounds : rounds b keys ++ tail = (List.replicate b keys ++ [tail]).flatten := by
    simp [rounds]
  have sparse : Sparse 8 2 (rounds b keys ++ tail) := by
    rw [as_rounds]
    refine sparse_flatten (fun r hr => ?_) fun r hr => ?_
    · rcases List.mem_append.mp hr with hr | hr
      · rwa [List.eq_of_mem_replicate hr]
      · rw [List.mem_singleton.mp hr]
        exact distinct.sublist sub
    · rw [List.dropLast_concat] at hr
      rw [List.eq_of_mem_replicate hr]
      omega
  rw [windows_of_sparse (by decide) (by decide) sparse]
  simp [rounds]

/-- The keys of the last round miss the window that still has room for them. -/
def missed (phase : Nat) (places : List (Fin 5)) : Bool :=
  phase = 6 && places.length ≤ 2 && places.contains 4 ||
    phase = 3 && places.length = 1 && (places.contains 3 || places.contains 4)

theorem windows_phase : ∀ phase < 8, ∀ places ∈ (List.finRange 5).sublists, places ≠ [] →
    decide (windows 8 2 (rounds phase (List.finRange 5) ++ places) ≤
      (phase * 5 + places.length + 7) / 8) = !missed phase places := by
  decide +kernel

/-- With five keys eight rounds make five windows, and the order falls back into step.
The last keys miss their window in two of the eight phases. -/
theorem windows_five {a b c d e : κ} (distinct : [a, b, c, d, e].Nodup)
    (sub : tail.Sublist [a, b, c, d, e]) (some_key : tail ≠ []) (n : Nat) :
    windows 8 2 (rounds n [a, b, c, d, e] ++ tail) ≤ (n * 5 + tail.length + 7) / 8 ↔
      ¬ (n % 8 = 6 ∧ tail.length ≤ 2 ∧ e ∈ tail ∨
        n % 8 = 3 ∧ tail.length = 1 ∧ (d ∈ tail ∨ e ∈ tail)) := by
  obtain ⟨f, inj, keys, places, sub_places, rfl, same⟩ := exists_fin (m := 5) rfl distinct sub
  obtain ⟨rfl, rfl⟩ : d = f 3 ∧ e = f 4 := by
    simpa [List.finRange_succ] using (List.cons.inj (List.cons.inj (List.cons.inj keys).2).2).2
  have phase := windows_phase (n % 8) (Nat.mod_lt _ (by decide)) places
    (List.mem_sublists.mpr sub_places) (by simpa using some_key)
  have aligned : windows 8 2 (rounds n (List.finRange 5) ++ places) ≤
        (n * 5 + places.length + 7) / 8 ↔ windows 8 2 (rounds (n % 8) (List.finRange 5) ++ places) ≤
        (n % 8 * 5 + places.length + 7) / 8 := by
    rw [windows_period 8 5 (by decide +kernel) (by decide +kernel) (by decide +kernel)]
    omega
  rw [same, List.length_map, aligned, ← decide_eq_true_iff (p := windows 8 2 _ ≤ _), phase]
  simp only [missed, List.mem_map_of_injective inj, Bool.not_eq_true', Bool.or_eq_false_iff]
  grind

end

/-- The floor is one window short: five sources, of which only a few at the end of the
order have the most pairs, and a number of pairs whose last round just misses the last
window. -/
def stalls (pairs : List Pair) : Bool :=
  let most := busiest pairs
  let full := (sourceOrder pairs).filter (load pairs · = most)
  match sourceOrder pairs with
  | [_, _, _, fourth, fifth] =>
    most % 8 = 7 && full.length ≤ 2 && full.contains fifth ||
      most % 8 = 4 && full.length = 1 && (full.contains fourth || full.contains fifth)
  | _ => false

/-- No two sources differ by more than one pair. -/
def NearlyEven (pairs : List Pair) : Prop :=
  ∀ src ∈ sourceOrder pairs, load pairs src = busiest pairs ∨ load pairs src + 1 = busiest pairs

theorem length_dispatchedSources (pairs : List Pair) :
    (dispatchedSources pairs).length = pairs.length := by
  rw [dispatchedSources, List.length_map, (perm_interleaveBySource pairs).length_eq,
    List.length_range]

/-- Whole rounds of all sources, then one of those with a pair more. -/
theorem dispatchedSources_of_nearlyEven (even : NearlyEven pairs) {b : Nat}
    (most : busiest pairs = b + 1) : dispatchedSources pairs =
      rounds b (sourceOrder pairs) ++ (sourceOrder pairs).filter (load pairs · = b + 1) := by
  have whole : ∀ r ∈ List.range b, (sourceOrder pairs).filter (r < load pairs ·) =
      sourceOrder pairs := by
    intro r hr
    refine List.filter_eq_self.mpr fun src hs => ?_
    have := even src hs
    have := List.mem_range.mp hr
    simp only [decide_eq_true_eq]
    omega
  have last : (sourceOrder pairs).filter (b < load pairs ·) =
      (sourceOrder pairs).filter (load pairs · = b + 1) := by
    refine List.filter_congr fun src hs => ?_
    have := even src hs
    simp only [decide_eq_decide]
    omega
  have past : ∀ r, b < r → (sourceOrder pairs).filter (r < load pairs ·) = [] := by
    intro r hr
    refine List.filter_eq_nil_iff.mpr fun src _ => ?_
    have := load_le_busiest pairs src
    simp only [decide_eq_true_eq]
    omega
  have some_pair : pairs ≠ [] := by
    rintro rfl
    simp [busiest, countPerSource] at most
  obtain ⟨src, -, of_src⟩ := exists_busiest some_pair
  have enough := load_le_length pairs src
  obtain ⟨rest, len⟩ := Nat.exists_eq_add_of_le (show b + 1 ≤ pairs.length by omega)
  have first : ((List.range b).flatMap fun r => (sourceOrder pairs).filter (r < load pairs ·)) =
      rounds b (sourceOrder pairs) := by
    rw [List.flatMap_def, List.map_congr_left whole, List.map_const', List.length_range]
    rfl
  have none_left : (((List.range rest).map (b + 1 + ·)).flatMap fun r =>
      (sourceOrder pairs).filter (r < load pairs ·)) = [] := by
    refine List.flatMap_eq_nil_iff.mpr fun r hr => past r ?_
    obtain ⟨i, -, rfl⟩ := List.mem_map.mp hr
    omega
  rw [dispatchedSources, sources_interleaved, len, List.range_add, List.flatMap_append,
    List.range_succ, List.flatMap_append, List.flatMap_singleton, first, last, none_left,
    List.append_nil]

theorem floorBatches_eq (some_pair : pairs ≠ []) {b : Nat} (most : busiest pairs = b + 1) :
    floorBatches pairs = max ((pairs.length + 7) / 8) ((b + 2) / 2) := by
  have := List.length_pos_iff.mpr some_pair
  simp only [floorBatches, ceilDiv, maxConcurrency, maxPerSourceConcurrency, most]
  grind

theorem stalls_of_length_ne (other : (sourceOrder pairs).length ≠ 5) : stalls pairs = false := by
  unfold stalls
  dsimp only
  split
  · rename_i five
    simp [five] at other
  · rfl

theorem stalls_five {v w x y z : String} (five : sourceOrder pairs = [v, w, x, y, z]) :
    stalls pairs = true ↔
      let full := (sourceOrder pairs).filter (load pairs · = busiest pairs)
      busiest pairs % 8 = 7 ∧ full.length ≤ 2 ∧ z ∈ full ∨
        busiest pairs % 8 = 4 ∧ full.length = 1 ∧ (y ∈ full ∨ z ∈ full) := by
  simp only [stalls, five]
  simp [and_assoc]

/-- Five sources are bound by the window of the run. -/
theorem five_dominates (b : Nat) {t : Nat} (pos : 0 < t) :
    max ((b * 5 + t + 7) / 8) ((b + 2) / 2) = (b * 5 + t + 7) / 8 := by
  omega

/-- With nearly equal loads the windows fit the floor except where `stalls` says. -/
theorem windows_le_floorBatches_iff (some_pair : pairs ≠ []) (even : NearlyEven pairs) :
    windows maxConcurrency maxPerSourceConcurrency (dispatchedSources pairs) ≤ floorBatches pairs ↔
      stalls pairs = false := by
  obtain ⟨src, known, of_src⟩ := exists_busiest some_pair
  have pos := load_pos_iff.mpr known
  obtain ⟨b, most⟩ : ∃ b, busiest pairs = b + 1 := ⟨busiest pairs - 1, by omega⟩
  have order := dispatchedSources_of_nearlyEven even most
  set tail := (sourceOrder pairs).filter (load pairs · = b + 1) with tail_def
  have sub : tail.Sublist (sourceOrder pairs) := List.filter_sublist
  have some_key : tail ≠ [] :=
    List.ne_nil_of_mem (List.mem_filter.mpr ⟨known, by simpa using of_src.trans most⟩)
  have total : pairs.length = b * (sourceOrder pairs).length + tail.length := by
    rw [← length_dispatchedSources, order, List.length_append, length_rounds]
  have distinct := nodup_sourceOrder pairs
  have floor := floorBatches_eq some_pair most
  rw [order]
  change windows 8 2 _ ≤ _ ↔ _
  by_cases five : (sourceOrder pairs).length = 5
  · obtain ⟨v, w, x, y, z, keys⟩ : ∃ v w x y z, sourceOrder pairs = [v, w, x, y, z] := by
      match sourceOrder pairs, five with
      | [v, w, x, y, z], _ => exact ⟨v, w, x, y, z, rfl⟩
    have phases := windows_five (keys ▸ distinct) (keys ▸ sub) some_key b
    have stalled := stalls_five keys
    dsimp only at stalled
    rw [most, ← tail_def] at stalled
    rw [total, five, five_dominates b (List.length_pos_iff.mpr some_key)] at floor
    rw [← keys] at phases
    rw [floor, phases, ← Bool.not_eq_true, stalled]
    refine not_congr (or_congr ?_ ?_) <;> refine and_congr_left fun _ => ?_ <;> omega
  · simp only [stalls_of_length_ne five, iff_true]
    by_cases few : (sourceOrder pairs).length ≤ 4
    · have := windows_few few distinct sub some_key b
      omega
    · by_cases six : (sourceOrder pairs).length = 6
      · have := windows_six six distinct sub b
        rw [six] at total
        omega
      · have := windows_many (by omega) distinct sub b
        omega

/-! ## Plans -/

/-- How many pairs a source has: every distinct destination but itself. -/
theorem load_plan {sources : List String} {destinations : List Destination} (distinct : pairs.Nodup)
    (mem : ∀ p, p ∈ pairs ↔
      p.isSelf = false ∧ p.source ∈ sources ∧ p.destination ∈ destinations) {src : String}
    (known : src ∈ sources) :
    load pairs src = (destinations.dedup.filter fun d => !(Pair.mk src d).isSelf).length := by
  have of_src : ((pairs.filter (·.source = src)).map Pair.destination).Perm
      (destinations.dedup.filter fun d => !(Pair.mk src d).isSelf) := by
    refine (List.perm_ext_iff_of_nodup ?_ ((List.nodup_dedup _).filter _)).mpr fun d => ?_
    · refine (List.nodup_map_iff_inj_on (distinct.filter _)).mpr ?_
      rintro ⟨s, d⟩ hp ⟨s', d'⟩ hq same
      grind
    · simp only [List.mem_map, List.mem_filter, mem, decide_eq_true_eq, List.mem_dedup,
        Bool.not_eq_true']
      constructor
      · rintro ⟨⟨s, d'⟩, ⟨⟨self, -, hd⟩, rfl⟩, rfl⟩
        exact ⟨hd, self⟩
      · rintro ⟨hd, self⟩
        exact ⟨⟨src, d⟩, ⟨⟨self, known, hd⟩, rfl⟩, rfl⟩
  rw [load, List.countP_eq_length_filter, ← of_src.length_eq, List.length_map]

variable {spec : Spec} {nodes : List String}

section
variable (planned : plan spec nodes = .ok pairs)
include planned

/-- Without typed node destinations a source is named at most once on the other side. -/
theorem load_plan_range
    (external : ∀ d ∈ spec.typedDestinations, d.isNode = false) :
    ∃ most, ∀ src ∈ planSources spec nodes, load pairs src ≤ most ∧ most ≤ load pairs src + 1 := by
  obtain ⟨destinations, resolved, -, distinct, mem⟩ := plan_ok planned
  refine ⟨destinations.dedup.length, fun src known => ?_⟩
  have loaded := load_plan distinct mem known
  have self_eq : ∀ d ∈ destinations.dedup.filter fun d => (Pair.mk src d).isSelf,
      d = nodeDestination src := by
    intro d hd
    obtain ⟨known, self⟩ := List.mem_filter.mp hd
    obtain ⟨node, same⟩ : d.isNode = true ∧ src = d.node := by simpa [Pair.isSelf] using self
    rw [same]
    exact planDestinations_node resolved external (List.mem_dedup.mp known) node
  have selves : (destinations.dedup.filter fun d => (Pair.mk src d).isSelf).length ≤ 1 := by
    rw [List.eq_replicate_of_mem self_eq]
    have once := (List.nodup_dedup destinations).filter fun d => (Pair.mk src d).isSelf
    rw [List.eq_replicate_of_mem self_eq, List.nodup_replicate] at once
    simpa using once
  have split := List.length_eq_length_filter_add (l := destinations.dedup)
    fun d => (Pair.mk src d).isSelf
  omega

theorem mem_planSources {p : Pair} (mem : p ∈ pairs) : p.source ∈ planSources spec nodes := by
  obtain ⟨destinations, -, -, -, iff⟩ := plan_ok planned
  exact ((iff p).mp mem).2.1

theorem nearlyEven_plan
    (external : ∀ d ∈ spec.typedDestinations, d.isNode = false) : NearlyEven pairs := by
  obtain ⟨-, -, some_pair, -, -⟩ := plan_ok planned
  obtain ⟨most, range⟩ := load_plan_range planned external
  have known : ∀ src ∈ sourceOrder pairs, src ∈ planSources spec nodes := by
    intro src hs
    obtain ⟨p, hp, rfl⟩ := mem_sourceOrder.mp hs
    exact mem_planSources planned hp
  obtain ⟨top, hs, of_top⟩ := exists_busiest some_pair
  intro src hs'
  have := range src (known src hs')
  have := range top (known top hs)
  have := load_le_busiest pairs src
  omega

end

/-- A run keeps its ceiling exactly when its order takes no more windows than the floor
counts. For a spec without typed node destinations, which is every spec the console
builds, this fails exactly where `stalls` says. -/
theorem plan_keepsCeiling_iff {spec : Spec} {nodes : List String} {pairs : List Pair}
    {perPairTimeout : Nat} (planned : plan spec nodes = .ok pairs) (positive : 0 < perPairTimeout) :
    (KeepsCeiling pairs perPairTimeout ↔
      windows maxConcurrency maxPerSourceConcurrency (dispatchedSources pairs) ≤
        floorBatches pairs) ∧ ((∀ d ∈ spec.typedDestinations, d.isNode = false) →
      (KeepsCeiling pairs perPairTimeout ↔ stalls pairs = false)) := by
  obtain ⟨-, -, some_pair, -, -⟩ := plan_ok planned
  have reduced := keepsCeiling_iff_windows some_pair positive
  refine ⟨reduced, fun external => ?_⟩
  rw [reduced]
  exact windows_le_floorBatches_iff some_pair (nearlyEven_plan planned external)

def meshSpec : Spec := { type := "tcp" }

def meshNodes : List String := ["n1", "n2", "n3", "n4", "n5"]

def meshPairs : List Pair := (plan meshSpec meshNodes).toOption.getD []

theorem plan_keepsCeiling_iff_mesh :
    plan meshSpec meshNodes = .ok meshPairs ∧ 1 < floorBatches meshPairs ∧
      stalls meshPairs = false ∧ KeepsCeiling meshPairs second := by
  have planned : plan meshSpec meshNodes = .ok meshPairs := by rfl
  have calm : stalls meshPairs = false := by decide
  exact ⟨planned, by decide, calm,
    ((plan_keepsCeiling_iff planned (by decide)).2 (by decide)).mpr calm⟩

/-- Traces from five nodes, three of them among the seven destinations. -/
def traceSpec : Spec :=
  { type := "mtr"
    sources := ["a", "b", "c", "x", "y"]
    destinations := ["a", "b", "c", "p", "q", "r", "s"] }

def tracePairs : List Pair := (plan traceSpec []).toOption.getD []

def traceTimeout : Nat := (clampTimeoutFor traceSpec.type traceSpec.timeout).toNat

/-- The floor counts four windows for the 32 pairs and the dispatcher needs five: with
traces of 90s the last one would end a minute after the deadline. -/
theorem traces_miss_deadline :
    plan traceSpec [] = .ok tracePairs ∧ ¬ KeepsCeiling tracePairs traceTimeout ∧
      ∃ e ∈ dispatchRound tracePairs fun _ => traceTimeout,
        runDeadline tracePairs traceTimeout 0 + 60 * second = e.2 := by
  have late : ∃ e ∈ dispatchRound tracePairs fun _ => traceTimeout,
      runDeadline tracePairs traceTimeout 0 + 60 * second = e.2 := by decide
  refine ⟨by rfl, fun keeps => ?_, late⟩
  obtain ⟨e, mem, at_e⟩ := late
  have := ((keeps (fun _ => traceTimeout) fun _ => le_rfl).2 e mem).2
  omega

end Kconmon.Console.Checks
