import Kconmon.Console.RunExecution

/-!
# How often a run samples its pairs

An interval run repeats its rounds for the duration it was given. `planCadence` says in advance how
often: the requested cadence or one derived from the duration, no faster than the cap on samples
allows, stretched to what one round needs when the check type is slow. The loop itself is paced by
the unstretched cadence, so the plan is a floor on what the loop does. Times are nanoseconds.
-/
namespace Kconmon.Console.Checks

def minRunDuration : Int := 10 * second
def maxRunDuration : Int := 24 * 3600 * second
def minSampleInterval : Int := 5 * second
def minRequestedSampleInterval : Int := 1 * second

/-- What Start is asked for, with the two fields that make it an interval run. -/
structure IntervalSpec extends Spec where
  duration : Int := 0
  /-- zero leaves the cadence to the console -/
  requestedSampleInterval : Int := 0

/-! ## What is accepted -/

inductive RangeError where
  | durationOutOfRange (d : Int)
  | sampleIntervalWithoutDuration (requested : Int)
  | sampleIntervalOutOfRange (requested duration : Int)
  deriving DecidableEq

def validateDuration (d : Int) : Except RangeError Unit :=
  if d = 0 then .ok ()
  else if d < minRunDuration ∨ d > maxRunDuration then .error (.durationOutOfRange d)
  else .ok ()

def validateSampleInterval (requested duration : Int) : Except RangeError Unit :=
  if requested = 0 then .ok ()
  else if duration ≤ 0 then .error (.sampleIntervalWithoutDuration requested)
  else if requested < minRequestedSampleInterval ∨ requested > duration then
    .error (.sampleIntervalOutOfRange requested duration)
  else .ok ()

/-! ## The plan -/

def sampleInterval (d : Int) : Int :=
  if d ≤ 0 then 0 else max (d / maxSamplesPerPair) minSampleInterval

def baseSampleInterval (spec : IntervalSpec) : Int :=
  if spec.duration ≤ 0 then 0
  else if spec.requestedSampleInterval ≤ 0 then sampleInterval spec.duration
  else
    let ceiling := spec.duration / maxSamplesPerPair
    if spec.requestedSampleInterval < ceiling then ceiling else spec.requestedSampleInterval

/-- Why a plan is not the cadence that was asked for. -/
inductive Adjusted where
  | unchanged
  | intervalCapped
  | intervalStretched
  deriving DecidableEq

/-- As it is stored with the run. -/
def Adjusted.text : Adjusted → String
  | unchanged => ""
  | intervalCapped => "cap"
  | intervalStretched => "round"

structure Cadence where
  requested : Int
  base : Int
  interval : Int
  samplesPerPair : Int
  adjusted : Adjusted
  deriving DecidableEq

/-- What one probe is expected to take, which only for the slow types is its timeout. -/
def perPairBudget (checkType : String) (perPairTimeout : Nat) : Nat :=
  if checkType = "mtr" ∨ checkType = "pmtu" then perPairTimeout else 0

def plannedSamplesPerPair (duration interval : Int) : Int :=
  if duration ≤ 0 ∨ interval ≤ 0 then 1
  else
    let n := duration / interval
    if n < 1 then 1 else if n > maxSamplesPerPair then maxSamplesPerPair else n

def planCadence (spec : IntervalSpec) (pairs : List Pair) (perPairTimeout : Nat) : Cadence :=
  let requested := spec.requestedSampleInterval
  let base := baseSampleInterval spec
  if base ≤ 0 then
    { requested, base, interval := base
      samplesPerPair := plannedSamplesPerPair spec.duration 0, adjusted := .unchanged }
  else
    let floor : Int := roundFloor pairs (perPairBudget spec.type perPairTimeout)
    let interval := if floor > base then floor else base
    let adjusted : Adjusted :=
      if floor > base then .intervalStretched
      else if requested > 0 ∧ base > requested then .intervalCapped
      else .unchanged
    { requested, base, interval
      samplesPerPair := plannedSamplesPerPair spec.duration interval, adjusted }

/-! ## The loop -/

/-- Another round follows `round`, which ended at `now` after the start of the run. -/
def Job.continues (job : Job) (round : Nat) (now : Int) : Bool :=
  !(job.duration ≤ 0) && !(round + 1 ≥ maxSamplesPerPair) && now < job.duration &&
    !((round + 1 : Nat) * job.interval > job.duration)

/-- When the rounds of a run begin, from `round` on, if it begins at `start` and round `k` takes
`took k`. A boundary that has passed is not waited for. -/
def Job.roundStarts (job : Job) (took : Nat → Int) (round : Nat) (start : Int) : List Int :=
  start :: if job.continues round (start + took round) then
    job.roundStarts took (round + 1)
      (max (start + took round) ((round + 1 : Nat) * job.interval)) else []
termination_by maxSamplesPerPair - round
decreasing_by
  rename_i goes
  simp [Job.continues] at goes
  omega

/-! ## What the plan says -/

/-- The cadence that was asked for, or the derived one where none was. -/
def IntervalSpec.asked (spec : IntervalSpec) : Int :=
  if spec.requestedSampleInterval > 0 then spec.requestedSampleInterval
  else sampleInterval spec.duration

section Plan

variable {spec : IntervalSpec}

theorem requested_nonneg {requested duration : Int}
    (accepted : validateSampleInterval requested duration = .ok ()) : 0 ≤ requested := by
  unfold validateSampleInterval at accepted
  split_ifs at accepted with absent instant range
  · omega
  · have : minRequestedSampleInterval = 1000000000 := rfl
    omega

section
variable (positive : 0 < spec.duration)
include positive

theorem baseSampleInterval_eq : baseSampleInterval spec =
    if spec.requestedSampleInterval > 0 then
      max spec.asked (spec.duration / maxSamplesPerPair) else spec.asked := by
  unfold baseSampleInterval IntervalSpec.asked
  grind

theorem asked_pos : 0 < spec.asked := by
  have : minSampleInterval = 5000000000 := rfl
  unfold IntervalSpec.asked sampleInterval
  grind

theorem asked_le_base : spec.asked ≤ baseSampleInterval spec := by
  rw [baseSampleInterval_eq positive]
  grind

end

theorem plannedSamplesPerPair_spec {duration interval : Int} (positive : 0 < interval) :
    1 ≤ plannedSamplesPerPair duration interval ∧
      plannedSamplesPerPair duration interval ≤ maxSamplesPerPair ∧
      (plannedSamplesPerPair duration interval = 1 ∨
        plannedSamplesPerPair duration interval * interval ≤ duration) := by
  have cap : (maxSamplesPerPair : Int) = 500 := rfl
  unfold plannedSamplesPerPair
  dsimp only
  split_ifs with instant few many
  · omega
  · omega
  · have := Int.ediv_mul_le duration (Int.ne_of_gt positive)
    refine ⟨by omega, by omega, .inr ?_⟩
    exact (Int.mul_le_mul_of_nonneg_right (Int.le_of_lt many) positive.le).trans this
  · have := Int.ediv_mul_le duration (Int.ne_of_gt positive)
    exact ⟨by omega, by omega, .inr this⟩

theorem planCadence_spec (positive : 0 < spec.duration)
    (pairs : List Pair) (perPairTimeout : Nat) :
    let cadence := planCadence spec pairs perPairTimeout
    0 < cadence.base ∧ cadence.base ≤ cadence.interval ∧
      (cadence.adjusted = .unchanged ↔ cadence.interval = spec.asked) ∧
      cadence.samplesPerPair = plannedSamplesPerPair spec.duration cadence.interval := by
  have base := baseSampleInterval_eq positive
  have pos := asked_pos positive
  have le := asked_le_base positive
  unfold planCadence
  rw [if_neg (by omega)]
  refine ⟨by grind, by grind, ?_, rfl⟩
  by_cases stretched : (roundFloor pairs (perPairBudget spec.type perPairTimeout) : Int) >
      baseSampleInterval spec
  · simp only [stretched, if_true]
    simp
    omega
  · simp only [stretched, if_false]
    by_cases capped : spec.requestedSampleInterval > 0 ∧
        baseSampleInterval spec > spec.requestedSampleInterval
    · have : spec.asked = spec.requestedSampleInterval := if_pos capped.1
      simp only [capped, and_self, if_true]
      simp
      omega
    · simp only [capped, if_false, true_iff]
      grind [IntervalSpec.asked]

end Plan

/-! ## What the loop does -/

section Loop

variable {job : Job} {took : Nat → Int} {interval : Int}

variable {round : Nat} {start : Int}

/-- The next round begins within `interval` of a round that kept within it. -/
theorem nextStart_le (base : job.interval ≤ interval) (short : ∀ k, 0 ≤ took k ∧ took k ≤ interval)
    (upper : start ≤ round * interval) :
    max (start + took round) ((round + 1 : Nat) * job.interval) ≤ (round + 1 : Nat) * interval := by
  have step := (short round).2
  have boundary : ((round + 1 : Nat) : Int) * job.interval ≤ (round + 1 : Nat) * interval :=
    Int.mul_le_mul_of_nonneg_left base (Int.natCast_nonneg _)
  have split : ((round + 1 : Nat) : Int) * interval = round * interval + interval := by
    rw [Int.natCast_add, Int.add_mul, Int.natCast_one, Int.one_mul]
  omega

/-- Every round begins at its boundary at the earliest, and `interval` after the one before it at
the latest. -/
theorem roundStarts_paced (base : job.interval ≤ interval)
    (short : ∀ k, 0 ≤ took k ∧ took k ≤ interval) (lower : round * job.interval ≤ start)
    (upper : start ≤ round * interval) : ∀ k s, (job.roundStarts took round start)[k]? = some s →
      (round + k : Nat) * job.interval ≤ s ∧ s ≤ (round + k : Nat) * interval := by
  fun_induction Job.roundStarts job took round start with
  | case1 round start ih =>
    intro k s found
    cases k with
    | zero =>
      obtain rfl : start = s := by simpa using found
      exact ⟨lower, upper⟩
    | succ k =>
      rw [List.getElem?_cons_succ] at found
      split_ifs at found with goes
      · have later := ih goes (le_max_right _ _) (nextStart_le base short upper) k s found
        rwa [show round + (k + 1) = round + 1 + k by omega]
      · simp at found

theorem length_roundStarts_le (few : round < maxSamplesPerPair) (start : Int) :
    round + (job.roundStarts took round start).length ≤ maxSamplesPerPair := by
  fun_induction Job.roundStarts job took round start with
  | case1 round start ih =>
    by_cases goes : job.continues round (start + took round) = true
    · have more : round + 1 < maxSamplesPerPair := by
        simp only [Job.continues, Bool.and_eq_true, Bool.not_eq_true', decide_eq_false_iff_not]
          at goes
        omega
      have := ih goes more
      rw [if_pos goes, List.length_cons]
      omega
    · simp [goes]
      omega

/-- The loop goes on while the planned rounds fit the duration. -/
theorem le_length_roundStarts (positive : 0 < interval) (base : job.interval ≤ interval)
    (short : ∀ k, 0 ≤ took k ∧ took k ≤ interval) {planned : Nat}
    (fits : planned * interval ≤ job.duration) (cap : planned ≤ maxSamplesPerPair)
    (upper : start ≤ round * interval) (early : round < planned) :
    planned ≤ round + (job.roundStarts took round start).length := by
  fun_induction Job.roundStarts job took round start with
  | case1 round start ih =>
    by_cases last : round + 1 = planned
    · rw [List.length_cons]
      omega
    have next := nextStart_le base short upper
    -- the boundary of the next round and the end of this one both lie before the deadline
    have inside : ((round + 1 : Nat) : Int) * interval < job.duration := by
      have : ((round + 1 : Nat) : Int) * interval < planned * interval :=
        Int.mul_lt_mul_of_pos_right (by omega) positive
      omega
    have goes : job.continues round (start + took round) = true := by
      simp only [Job.continues, Bool.and_eq_true, Bool.not_eq_true', decide_eq_false_iff_not,
        decide_eq_true_eq]
      have := Int.mul_nonneg (Int.natCast_nonneg (round + 1)) positive.le
      omega
    have := ih goes next (by omega)
    rw [if_pos goes, List.length_cons]
    omega

end Loop

/-- The planned number of samples is a floor on the rounds of a run that is not cancelled and whose
rounds keep within the planned cadence. -/
theorem planCadence_is_floor (spec : IntervalSpec)
    (accepted : minRunDuration ≤ spec.duration ∧ spec.duration ≤ maxRunDuration)
    (request : validateSampleInterval spec.requestedSampleInterval spec.duration = .ok ())
    (pairs : List Pair) (perPairTimeout : Nat) :
    let cadence := planCadence spec pairs perPairTimeout
    1 ≤ cadence.samplesPerPair ∧ cadence.samplesPerPair ≤ maxSamplesPerPair ∧
    0 < cadence.base ∧ cadence.base ≤ cadence.interval ∧
    (cadence.adjusted.text = "" ↔ cadence.interval =
      if spec.requestedSampleInterval = 0 then sampleInterval spec.duration
      else spec.requestedSampleInterval) ∧
    ∀ rounds (took : Nat → Int), (∀ k, 0 ≤ took k ∧ took k ≤ cadence.interval) →
      let starts := Job.roundStarts ⟨pairs, spec.duration, cadence.base, rounds⟩ took 0 0
      cadence.samplesPerPair ≤ starts.length ∧ starts.length ≤ maxSamplesPerPair ∧
      ∀ (k : Nat) s, starts[k]? = some s → k * cadence.base ≤ s ∧ s ≤ k * cadence.interval := by
  have positive : 0 < spec.duration := by
    have : minRunDuration = 10000000000 := rfl
    omega
  have nonneg := requested_nonneg request
  obtain ⟨base, stretched, adjusted, samples⟩ := planCadence_spec positive pairs perPairTimeout
  intro cadence
  have apart : 0 < cadence.interval := Int.lt_of_lt_of_le base stretched
  obtain ⟨one, cap, fits⟩ : 1 ≤ cadence.samplesPerPair ∧
      cadence.samplesPerPair ≤ maxSamplesPerPair ∧ (cadence.samplesPerPair = 1 ∨
        cadence.samplesPerPair * cadence.interval ≤ spec.duration) :=
    samples ▸ plannedSamplesPerPair_spec apart
  refine ⟨one, cap, base, stretched, ?_, ?_⟩
  · have text : cadence.adjusted.text = "" ↔ cadence.adjusted = .unchanged := by
      cases cadence.adjusted <;> simp [Adjusted.text]
    rw [text, adjusted, IntervalSpec.asked]
    grind
  · intro rounds took short starts
    refine ⟨?_, ?_, ?_⟩
    · rcases fits with single | fits
      · have : starts ≠ [] := by
          unfold starts
          rw [Job.roundStarts]
          exact List.cons_ne_nil _ _
        have := List.length_pos_iff.mpr this
        omega
      · obtain ⟨planned, count⟩ := Int.eq_ofNat_of_zero_le (Int.le_trans Int.one_nonneg one)
        rw [count] at fits cap one ⊢
        have : planned ≤ 0 + starts.length :=
          le_length_roundStarts apart stretched short fits (by omega) (by simp) (by omega)
        omega
    · have : 0 + starts.length ≤ maxSamplesPerPair := length_roundStarts_le (by decide) 0
      omega
    · intro k s found
      simpa using roundStarts_paced stretched short (by simp) (by simp) k s found

/-- A sample every ten seconds for ten minutes, from probes that may take a quarter of a minute. -/
def slow : IntervalSpec :=
  { type := "pmtu", duration := 600 * second, requestedSampleInterval := 10 * second }

def slowPairs : List Pair :=
  (plan { type := "pmtu" } ["n1", "n2", "n3", "n4", "n5"]).toOption.getD []

/-- The twenty pairs take three windows, and so the cadence is stretched; rounds of different
lengths make no fewer samples. -/
theorem planCadence_is_floor_slow :
    let took (k : Nat) : Int := if k % 2 = 0 then 12 * second else 40 * second
    planCadence slow slowPairs (15 * second) =
        ⟨10 * second, 10 * second, 45 * second, 13, .intervalStretched⟩ ∧
      13 ≤ ((Job.roundStarts ⟨slowPairs, slow.duration, 10 * second, 500⟩ took 0 0).length : Int) :=
        by
  intro took
  have plan : planCadence slow slowPairs (15 * second) =
      ⟨10 * second, 10 * second, 45 * second, 13, .intervalStretched⟩ := by decide
  have floor := planCadence_is_floor slow (by decide) rfl slowPairs (15 * second)
  rw [plan] at floor
  exact ⟨plan, (floor.2.2.2.2.2 500 took fun k => by grind [second]).1⟩

end Kconmon.Console.Checks
