import Kconmon.Console.Cadence
import Kconmon.Console.RoundFloor
import Kconmon.Lib.Shares
import Mathlib.Data.Rat.Floor

/-!
# The cadence the browser shows

The create forms show what a choice will do before there is a request, so the browser plans the
cadence a second time, from the number of pairs and of sources alone. A number of the browser is an
integer here and `/` is exact, which it is for the lengths of time a form can hold.

The server counts the pairs of the busiest source and the browser divides two totals. They agree
because a source probes every destination but itself, so that no two sources differ by more than one
pair.
-/
namespace Kconmon.Console.Preview
open Lib Checks

/-! ## The browser's plan -/

def maxSamplesPerPair : Int := 500
def minSampleIntervalNs : Int := 5000000000
def mtrPerPairBudgetNs : Int := 90000000000
def pmtuPerPairBudgetNs : Int := 15000000000
def maxConcurrency : Int := 8
def maxPerSourceConcurrency : Int := 2

def perPairBudgetNs (checkType : String) : Int :=
  if checkType = "mtr" then mtrPerPairBudgetNs
  else if checkType = "pmtu" then pmtuPerPairBudgetNs
  else 0

/-- `Math.floor(a / b)` -/
def floorDiv (a b : Int) : Int := ⌊(a / b : ℚ)⌋

def ceilDiv (a b : Int) : Int := if b ≤ 0 then a else max ⌈(a / b : ℚ)⌉ 1

def asCount (n : Int) : Int := if n > 0 then n else 0

def sampleIntervalNs (durationNs : Int) : Int :=
  if ¬durationNs > 0 then 0 else max (floorDiv durationNs maxSamplesPerPair) minSampleIntervalNs

def baseSampleIntervalNs (durationNs requestedNs : Int) : Int :=
  let derived := sampleIntervalNs durationNs
  if derived ≤ 0 then 0
  else if ¬requestedNs > 0 then derived
  else max requestedNs (floorDiv durationNs maxSamplesPerPair)

structure PlannedCadence where
  requestedNs : Int
  baseNs : Int
  intervalNs : Int
  samplesPerPair : Int
  adjusted : Adjusted
  deriving DecidableEq

/-- One round over the pairs, where the type has a budget. -/
def floorNs (checkType : String) (pairCount sourceCount : Int) : Option Int :=
  let budget := perPairBudgetNs checkType
  let pairs := asCount pairCount
  let sources := asCount sourceCount
  if budget > 0 ∧ pairs > 0 then
    let perSource := if sources > 0 then ceilDiv pairs sources else pairs
    let batches := max (ceilDiv pairs maxConcurrency) (ceilDiv perSource maxPerSourceConcurrency)
    some (batches * budget)
  else none

def planCadenceFor (durationNs : Int) (checkType : String)
    (pairCount sourceCount requestedNs : Int) : PlannedCadence :=
  let requested := if requestedNs > 0 then requestedNs else 0
  let baseNs := baseSampleIntervalNs durationNs requested
  if baseNs ≤ 0 then
    { requestedNs := requested, baseNs, intervalNs := baseNs, samplesPerPair := 1
      adjusted := .unchanged }
  else
    let stretched := (floorNs checkType pairCount sourceCount).filter (· > baseNs)
    let intervalNs := stretched.getD baseNs
    let adjusted : Adjusted :=
      if stretched.isSome then .intervalStretched
      else if requested > 0 ∧ baseNs > requested then .intervalCapped
      else .unchanged
    { requestedNs := requested, baseNs, intervalNs
      samplesPerPair := min (max (floorDiv durationNs intervalNs) 1) maxSamplesPerPair
      adjusted }

/-! ## Divisions -/

theorem floorDiv_eq (a : Int) {b : Int} (positive : 0 < b) : floorDiv a b = a / b := by
  obtain ⟨n, rfl⟩ := Int.eq_ofNat_of_zero_le positive.le
  rw [floorDiv, Int.cast_natCast]
  exact Rat.floor_intCast_div_natCast a n

theorem ceilDiv_eq (a b : Nat) : ceilDiv a b = Checks.ceilDiv a b := by
  unfold ceilDiv Checks.ceilDiv
  by_cases zero : b = 0
  · simp [zero]
  have positive : 0 < b := by omega
  have ceil : ⌈((a : Int) / (b : Int) : ℚ)⌉ = ((a + b - 1) / b : Nat) := by
    have lower := Nat.div_mul_le_self (a + b - 1) b
    have upper : a ≤ (a + b - 1) / b * b := by
      have := Nat.lt_div_mul_add positive (a := a + b - 1)
      omega
    have positive' : (0 : ℚ) < (b : Int) := by exact_mod_cast positive
    rw [Int.ceil_eq_iff, lt_div_iff₀ positive', div_le_iff₀ positive']
    constructor
    · have : ((a + b - 1) / b : Nat) * (b : Int) < a + b := by omega
      rw [sub_mul, one_mul, sub_lt_iff_lt_add]
      exact_mod_cast this
    · exact_mod_cast upper
  rw [if_neg (by omega), if_neg zero, ceil]
  dsimp only
  split_ifs <;> omega

/-! ## The busiest source -/

section Counts

variable {spec : Spec} {nodes : List String} {pairs : List Pair}

section
variable (planned : plan spec nodes = .ok pairs)
include planned

/-- The average over the sources of a plan, rounded up, is the load of the busiest. -/
theorem ceilDiv_sources
    (external : ∀ d ∈ spec.typedDestinations, d.isNode = false) :
    Checks.ceilDiv pairs.length (planSources spec nodes).dedup.length = busiest pairs := by
  obtain ⟨-, -, some_pair, -, -⟩ := plan_ok planned
  obtain ⟨most, range⟩ := load_plan_range planned external
  obtain ⟨top, ordered, of_top⟩ := exists_busiest some_pair
  obtain ⟨p, mem, rfl⟩ := mem_sourceOrder.mp ordered
  have known := mem_planSources planned mem
  set sources := (planSources spec nodes).dedup with sources_eq
  have total : (sources.map (load pairs)).sum = pairs.length :=
    sum_countP_key (List.nodup_dedup _) fun q hq => List.mem_dedup.mpr (mem_planSources planned hq)
  have near : ∀ src ∈ sources, busiest pairs ≤ load pairs src + 1 := by
    intro src hs
    have := range src (List.mem_dedup.mp hs)
    have := range p.source known
    omega
  have average : ((sources.map (load pairs)).sum + (sources.map (load pairs)).length - 1) /
      (sources.map (load pairs)).length = busiest pairs :=
    ceil_average (by simpa using fun src _ => load_le_busiest pairs src) (by simpa using near)
      (List.mem_map.mpr ⟨p.source, List.mem_dedup.mpr known, of_top⟩)
  rw [total, List.length_map] at average
  have loaded : 0 < load pairs p.source := load_pos_iff.mpr ordered
  have some_source : 0 < sources.length := List.length_pos_of_mem (List.mem_dedup.mpr known)
  rw [Checks.ceilDiv, if_neg (by omega), average]
  exact if_neg (by omega)

theorem sources_pos : 0 < (planSources spec nodes).dedup.length := by
  obtain ⟨-, -, some_pair, -, -⟩ := plan_ok planned
  obtain ⟨p, mem⟩ := List.exists_mem_of_ne_nil pairs some_pair
  exact List.length_pos_of_mem (List.mem_dedup.mpr (mem_planSources planned mem))

/-- One round of the browser is one round of the server. -/
theorem floorNs_eq
    (external : ∀ d ∈ spec.typedDestinations, d.isNode = false) {timeout : Nat}
    (budget : perPairBudgetNs spec.type = perPairBudget spec.type timeout) :
    (floorNs spec.type pairs.length (planSources spec nodes).dedup.length).getD 0 =
      roundFloor pairs (perPairBudget spec.type timeout) := by
  obtain ⟨-, -, some_pair, -, -⟩ := plan_ok planned
  have counted : asCount pairs.length = pairs.length := by
    have := List.length_pos_iff.mpr some_pair
    exact if_pos (by omega)
  have sources : asCount (planSources spec nodes).dedup.length =
      (planSources spec nodes).dedup.length := if_pos (by have := sources_pos planned; omega)
  have perSource := ceilDiv_eq pairs.length (planSources spec nodes).dedup.length
  rw [ceilDiv_sources planned external] at perSource
  have windows := ceilDiv_eq pairs.length Checks.maxConcurrency
  have gates := ceilDiv_eq (busiest pairs) Checks.maxPerSourceConcurrency
  have batches : max (ceilDiv pairs.length maxConcurrency)
      (ceilDiv (busiest pairs) maxPerSourceConcurrency) = floorBatches pairs := by
    change max (ceilDiv pairs.length (Checks.maxConcurrency : Int))
      (ceilDiv (busiest pairs) (Checks.maxPerSourceConcurrency : Int)) = _
    rw [windows, gates, floorBatches]
    split_ifs <;> omega
  have pos := sources_pos planned
  have some_pairs := List.length_pos_iff.mpr some_pair
  simp only [floorNs, counted, sources, budget, perSource, roundFloor]
  by_cases slow : 0 < perPairBudget spec.type timeout
  · simp [slow, some_pairs, pos, batches]
  · simp [Nat.eq_zero_of_not_pos slow]

end

end Counts

/-! ## The two plans -/

theorem clampTimeoutFor_own_floor {checkType : String} {timeout : Int}
    (mtr : checkType = "mtr" → timeout ≤ mtrMinPerPairTimeout)
    (pmtu : checkType = "pmtu" → timeout ≤ pmtuMinPerPairTimeout) : perPairBudgetNs checkType =
      perPairBudget checkType (clampTimeoutFor checkType timeout).toNat := by
  have trace : mtrMinPerPairTimeout = 90000000000 := rfl
  have probe : pmtuMinPerPairTimeout = 15000000000 := rfl
  have shortest : minPerPairTimeout = 1000000000 := rfl
  have longest : maxPerPairTimeout = 120000000000 := rfl
  by_cases isMtr : checkType = "mtr"
  · subst isMtr
    have := mtr rfl
    have raised : clampTimeoutFor "mtr" timeout = mtrMinPerPairTimeout := by
      simp [clampTimeoutFor, clampTimeout]
      grind
    rw [raised]
    rfl
  by_cases isPmtu : checkType = "pmtu"
  · subst isPmtu
    have := pmtu rfl
    have raised : clampTimeoutFor "pmtu" timeout = pmtuMinPerPairTimeout := by
      simp [clampTimeoutFor, clampTimeout]
      grind
    rw [raised]
    rfl
  simp [perPairBudgetNs, perPairBudget, isMtr, isPmtu]

theorem baseSampleIntervalNs_eq (spec : IntervalSpec) :
    baseSampleIntervalNs spec.duration spec.requestedSampleInterval = baseSampleInterval spec := by
  have whole := floorDiv_eq spec.duration (b := maxSamplesPerPair) (by decide)
  have cap : maxSamplesPerPair = (Checks.maxSamplesPerPair : Int) := rfl
  have shortest : minSampleIntervalNs = minSampleInterval := rfl
  have positive : 0 < minSampleInterval := by decide
  unfold baseSampleIntervalNs sampleIntervalNs baseSampleInterval sampleInterval
  rw [whole, cap, shortest]
  grind

theorem samples_eq (duration : Int) {interval : Int} (positive : 0 < interval)
    (lasting : 0 < duration) : min (max (floorDiv duration interval) 1) maxSamplesPerPair =
      plannedSamplesPerPair duration interval := by
  have cap : maxSamplesPerPair = (Checks.maxSamplesPerPair : Int) := rfl
  have many : (1 : Int) ≤ (Checks.maxSamplesPerPair : Int) := by decide
  unfold plannedSamplesPerPair
  rw [floorDiv_eq duration positive, cap]
  grind

/-- The form shows the cadence that the server plans. -/
theorem planCadenceFor_eq_planCadence {spec : IntervalSpec} {nodes : List String}
    {pairs : List Pair} (planned : plan spec.toSpec nodes = .ok pairs)
    (external : ∀ d ∈ spec.typedDestinations, d.isNode = false)
    (request : validateSampleInterval spec.requestedSampleInterval spec.duration = .ok ())
    (timeout : Int) (mtr : spec.type = "mtr" → timeout ≤ mtrMinPerPairTimeout)
    (pmtu : spec.type = "pmtu" → timeout ≤ pmtuMinPerPairTimeout) :
    let cadence := planCadence spec pairs (clampTimeoutFor spec.type timeout).toNat
    let shown := planCadenceFor spec.duration spec.type pairs.length
      (planSources spec.toSpec nodes).dedup.length spec.requestedSampleInterval
    shown.baseNs = cadence.base ∧ shown.intervalNs = cadence.interval ∧
      shown.samplesPerPair = cadence.samplesPerPair ∧ shown.adjusted = cadence.adjusted := by
  have nonneg := requested_nonneg request
  have requested : (if spec.requestedSampleInterval > 0 then spec.requestedSampleInterval else 0) =
      spec.requestedSampleInterval := by grind
  have base := baseSampleIntervalNs_eq spec
  have round := floorNs_eq planned external (clampTimeoutFor_own_floor mtr pmtu)
  unfold planCadence planCadenceFor
  dsimp only
  rw [requested, base]
  by_cases instant : baseSampleInterval spec ≤ 0
  · simp [instant, plannedSamplesPerPair]
  have lasting : 0 < spec.duration := by
    by_contra none
    simp [baseSampleInterval, not_lt.mp none] at instant
  rw [if_neg instant, if_neg instant, ← round]
  cases floorNs spec.type pairs.length (planSources spec.toSpec nodes).dedup.length with
  | none =>
    have none : ¬(0 : Int) > baseSampleInterval spec := by omega
    simp [none, samples_eq spec.duration (not_le.mp instant) lasting]
  | some floor =>
    by_cases stretched : floor > baseSampleInterval spec
    · simp [Option.filter, stretched, samples_eq spec.duration (by omega : 0 < floor) lasting]
    · simp [Option.filter, stretched, samples_eq spec.duration (not_le.mp instant) lasting]

/-- Path MTU probes among three nodes for a minute, one each five seconds. -/
def probesSpec : IntervalSpec :=
  { type := "pmtu", duration := 60 * second, requestedSampleInterval := 5 * second }

def probesPairs : List Pair := (plan probesSpec.toSpec ["n1", "n2", "n3"]).toOption.getD []

theorem planCadenceFor_eq_planCadence_probes :
    plan probesSpec.toSpec ["n1", "n2", "n3"] = .ok probesPairs ∧
      planCadence probesSpec probesPairs 15000000000 =
        ⟨5000000000, 5000000000, 15000000000, 4, .intervalStretched⟩ ∧
      (planCadenceFor probesSpec.duration "pmtu" probesPairs.length 3
        probesSpec.requestedSampleInterval).intervalNs = 15000000000 := by
  have planned : plan probesSpec.toSpec ["n1", "n2", "n3"] = .ok probesPairs := rfl
  have server : planCadence probesSpec probesPairs 15000000000 =
      ⟨5000000000, 5000000000, 15000000000, 4, .intervalStretched⟩ := by decide
  have shown := planCadenceFor_eq_planCadence planned (by simp [probesSpec]) rfl 0 (by decide)
    (by decide)
  exact ⟨planned, server, shown.2.1.trans (congrArg Cadence.interval server)⟩

end Kconmon.Console.Preview
