import Kconmon.Console.Cadence
import Kconmon.Console.DispatchOrder
import Kconmon.Console.RunStores

/-!
# The reaper leaves live runs alone

A run that its replica abandoned is finished by a sweep. What the sweep knows of a run is the
duration in its spec and how many pairs it has, and from these it estimates how long the run may
take: as if all pairs left one source and each took the longest timeout. `estimate_covers` says that
this is never less than what the runner itself gave the run, with five minutes to spare.

The sweep of the database drops the rest of the duration below its unit, and its own clock has no
more digits than the rows.
-/
namespace Kconmon.Console.RunStore
open Lib Checks

def reapSlack : Int := 300 * second

/-- What the runner hands to the store, in nanoseconds. -/
def reapBudget : ReapBudget where
  perSourceConcurrency := maxPerSourceConcurrency
  perPairTimeout := maxPerPairTimeout
  slack := runDeadlineSlack + reapSlack

/-- The same budget in the database's unit. -/
def ReapBudget.micros (b : ReapBudget) : ReapBudget where
  perSourceConcurrency := b.perSourceConcurrency
  perPairTimeout := b.perPairTimeout / 1000
  slack := b.slack / 1000

/-- How long the runner's context lets a run take. -/
def ceilingOf (spec : IntervalSpec) (pairs : List Pair) : Int :=
  runDeadline pairs (clampTimeoutFor spec.type spec.timeout).toNat spec.duration.toNat

/-! ## The estimate -/

theorem clampTimeoutFor_le (checkType : String) (d : Int) :
    clampTimeoutFor checkType d ≤ maxPerPairTimeout := by
  have longest : maxPerPairTimeout = 120000000000 := rfl
  have shortest : minPerPairTimeout = 1000000000 := rfl
  have mtr : mtrMinPerPairTimeout = 90000000000 := rfl
  have udp : udpMinPerPairTimeout = 5000000000 := rfl
  have pmtu : pmtuMinPerPairTimeout = 15000000000 := rfl
  have clamped : clampTimeout d ≤ maxPerPairTimeout := by
    unfold clampTimeout
    split_ifs <;> omega
  unfold clampTimeoutFor
  dsimp only
  split_ifs <;> omega

theorem busiest_le_length (pairs : List Pair) : busiest pairs ≤ pairs.length := by
  cases pairs with
  | nil => decide
  | cons p pairs =>
    obtain ⟨src, -, same⟩ := exists_busiest (List.cons_ne_nil p pairs)
    exact same ▸ load_le_length (p :: pairs) src

/-- However the pairs are spread over sources, one source for all of them is the worst. -/
theorem floorBatches_le (pairs : List Pair) :
    floorBatches pairs ≤ batches pairs.length maxPerSourceConcurrency := by
  have wide : maxConcurrency = 8 := rfl
  have gate : maxPerSourceConcurrency = 2 := rfl
  have := busiest_le_length pairs
  unfold floorBatches batches ceilDiv
  rw [wide, gate]
  grind

theorem estimate_covers (spec : IntervalSpec) (pairs : List Pair)
    (nonneg : 0 ≤ spec.duration) : ceilingOf spec pairs + reapSlack ≤
      spec.duration + batches pairs.length maxPerSourceConcurrency * maxPerPairTimeout +
        reapBudget.slack := by
  have timeout : (clampTimeoutFor spec.type spec.timeout).toNat ≤ maxPerPairTimeout.toNat :=
    Int.toNat_le_toNat (clampTimeoutFor_le spec.type spec.timeout)
  have round : roundFloor pairs (clampTimeoutFor spec.type spec.timeout).toNat ≤
      batches pairs.length maxPerSourceConcurrency * maxPerPairTimeout.toNat :=
    Nat.mul_le_mul (floorBatches_le pairs) timeout
  have longest : (maxPerPairTimeout.toNat : Int) = maxPerPairTimeout := by decide
  have slack : reapBudget.slack = runDeadlineSlack + reapSlack := rfl
  have ceiling : ceilingOf spec pairs = spec.duration +
      roundFloor pairs (clampTimeoutFor spec.type spec.timeout).toNat + runDeadlineSlack := by
    unfold ceilingOf runDeadline
    dsimp only
    split_ifs <;> omega
  rw [ceiling, slack, ← longest]
  have round : (roundFloor pairs (clampTimeoutFor spec.type spec.timeout).toNat : Int) ≤
      batches pairs.length maxPerSourceConcurrency * (maxPerPairTimeout.toNat : Int) := by
    exact_mod_cast round
  omega

theorem duration_nonneg {d : Int} (accepted : validateDuration d = .ok ()) : 0 ≤ d := by
  have shortest : minRunDuration = 10000000000 := rfl
  unfold validateDuration at accepted
  split_ifs at accepted with instant range
  · omega
  · omega

/-! ## What a sweep leaves -/

/-- A run that is not overdue is as it was after a sweep of the memory store. -/
theorem MemoryStore.reapStuckRuns_spares {m : MemoryStore} {now : Int} {budget : ReapBudget}
    {id : String} {e : Entry} (held : m.runs.lookup id = some e)
    (live : MemoryStore.overdue now budget e.run = false) (limit : Int) :
    (m.reapStuckRuns now budget limit).1.runs.lookup id = some e := by
  refine foldl_invariant (I := fun acc : MemoryStore × Nat => acc.1.runs.lookup id = some e) held
    fun acc other _ held => ?_
  unfold MemoryStore.reapNext
  split_ifs
  · exact held
  · cases found : acc.1.runs.lookup other with
    | none => exact held
    | some e' =>
      dsimp only
      split_ifs with due
      · have differ : id ≠ other := by
          rintro rfl
          rw [held, Option.some.injEq] at found
          simp [← found, live] at due
        rw [MemoryStore.setRun, GoMap.lookup_insert_if, if_neg differ]
        exact held
      · exact held

/-- Nor is its row touched by the statement. -/
theorem SqlStore.reapStuckRuns_spares {q : SqlStore} {now : Int} {budget : ReapBudget}
    {row : RunRow} (distinct : (q.runs.map (·.run.id)).Nodup) (held : row ∈ q.runs)
    (live : SqlStore.overdue now budget row = false) (limit : Int) :
    row ∈ (q.reapStuckRuns now budget limit).1.runs := by
  have spared : row.run.id ∉ q.doomed now budget limit := by
    intro mem
    obtain ⟨other, mem, same⟩ := List.mem_map.mp mem
    have sorted := List.mem_of_mem_take mem
    obtain ⟨held', due⟩ := List.mem_filter.mp ((List.mem_insertionSort _).mp sorted)
    obtain rfl : other = row := List.inj_on_of_nodup_map distinct held' held same
    simp [live] at due
  unfold SqlStore.reapStuckRuns
  split_ifs
  · exact held
  · exact List.mem_map.mpr ⟨row, held, if_neg spared⟩

/-! ## Live runs -/

/-- Until five minutes after its context has ended, a run that Start accepted is not taken for
abandoned by either store, with its deadline in the row or without. -/
theorem reaper_spares_live (spec : IntervalSpec) (pairs : List Pair)
    (accepted : validateDuration spec.duration = .ok ()) :
    (∀ (run : Run) now, run.duration = spec.duration → run.pairTotal = pairs.length →
      now < run.createdAt + ceilingOf spec pairs + reapSlack →
        MemoryStore.overdue now reapBudget run = false) ∧
    ∀ (row : RunRow) now, row.run.duration = spec.duration / 1000 →
      row.run.pairTotal = pairs.length → row.deadlineAt = none ∨
        row.deadlineAt = some ((row.run.createdAt * 1000 + ceilingOf spec pairs) / 1000) →
      now * 1000 ≤ row.run.createdAt * 1000 + ceilingOf spec pairs + reapSlack →
        SqlStore.overdue now reapBudget.micros row = false := by
  have covers := estimate_covers spec pairs (duration_nonneg accepted)
  constructor
  · intro run now duration total early
    have allowance : MemoryStore.reapAllowance run reapBudget = spec.duration +
        batches pairs.length maxPerSourceConcurrency * maxPerPairTimeout + reapBudget.slack := by
      rw [MemoryStore.reapAllowance, duration, total]
      rfl
    have inside : now < run.createdAt + MemoryStore.reapAllowance run reapBudget := by omega
    simp [MemoryStore.overdue, inside]
  · intro row now duration total deadline early
    rw [show maxPerPairTimeout = 120000000000 from rfl] at covers
    have slack : reapBudget.slack = 330000000000 := rfl
    have timeoutMicros : reapBudget.micros.perPairTimeout = 120000000 := rfl
    have slackMicros : reapBudget.micros.slack = 330000000 := rfl
    have sources : reapBudget.micros.perSourceConcurrency = maxPerSourceConcurrency := rfl
    have margin : reapSlack = 300000000000 := rfl
    rcases deadline with none | own
    · have inside : ¬row.run.createdAt < now - row.run.duration -
          batches row.run.pairTotal maxPerSourceConcurrency * 120000000 - 330000000 := by
        rw [duration, total]
        omega
      simp [SqlStore.overdue, none, timeoutMicros, slackMicros, sources, inside]
    · have inside : ¬(row.run.createdAt * 1000 + ceilingOf spec pairs) / 1000 <
          now - 330000000 := by omega
      simp [SqlStore.overdue, own, slackMicros]
      omega

/-- A probe of one pair over ten seconds, with the longest timeout: the estimate is exact. -/
theorem reaper_spares_live_probe :
    let spec : IntervalSpec := { type := "tcp", timeout := 120 * second, duration := 10 * second }
    let run : Run :=
      { id := "r", createdAt := 0, status := .running, duration := 10 * second
        initiatorKind := "user", initiatorID := "u", pairTotal := 1 }
    let row : RunRow := ⟨{ run with duration := 10000000 }, none⟩
    let pairs : List Pair := [⟨"a", nodeDestination "b"⟩]
    ceilingOf spec pairs = 160 * second ∧
      MemoryStore.overdue (460 * second - 1) reapBudget run = false ∧
      SqlStore.overdue 460000000 reapBudget.micros row = false := by
  intro spec run row pairs
  have ceiling : ceilingOf spec pairs = 160 * second := by decide
  have spares := reaper_spares_live spec pairs rfl
  exact ⟨ceiling, spares.1 run _ rfl rfl (by rw [ceiling]; decide),
    spares.2 row _ rfl rfl (.inl rfl) (by rw [ceiling]; decide)⟩

end Kconmon.Console.RunStore
