import Mathlib.Init

/-!
# Runs of a guarded step function

A system is a step function that answers `none` when an action is not enabled.
`exec` runs a list of actions. `Reaches` collects the states a run can end in
when every step of the run meets a condition on the state before it and on the
action taken. An invariant is proved once, from its initial states and from
single steps.
-/
namespace Kconmon.Lib

variable {σ α : Type*}

/-- The state a list of actions ends in, `none` when one of them is not enabled. -/
def exec (step : σ → α → Option σ) : σ → List α → Option σ
  | s, [] => some s
  | s, a :: as => (step s a).bind fun t => exec step t as

/-- The step function with the actions that break `P` switched off. -/
def guarded (step : σ → α → Option σ) (P : σ → α → Prop) [∀ s a, Decidable (P s a)] :
    σ → α → Option σ := fun s a => if P s a then step s a else none

/-- Some run leads from the first state to the second, and each of its steps meets `P`. -/
inductive Reaches (step : σ → α → Option σ) (P : σ → α → Prop) (s : σ) : σ → Prop where
  | refl : Reaches step P s s
  | snoc {t u : σ} {a : α} : Reaches step P s t → P t a → step t a = some u → Reaches step P s u

variable {step : σ → α → Option σ} {P Q : σ → α → Prop} {s t : σ}

/-- What holds at the start and is kept by every step that meets `P` holds at the end. -/
theorem Reaches.invariant {I : σ → Prop} (run : Reaches step P s t) (init : I s)
    (keep : ∀ t a u, I t → P t a → step t a = some u → I u) : I t := by
  induction run with
  | refl => exact init
  | snoc _ cond taken ih => exact keep _ _ _ ih cond taken

theorem Reaches.trans {u : σ} (first : Reaches step P s t) (second : Reaches step P t u) :
    Reaches step P s u := by
  induction second with
  | refl => exact first
  | snoc _ cond taken ih => exact ih.snoc cond taken

/-- A run that was executed with the condition switched on is a run that meets it. -/
theorem Reaches.of_exec [∀ s a, Decidable (P s a)] {as : List α}
    (h : exec (guarded step P) s as = some t) : Reaches step P s t := by
  induction as generalizing s with
  | nil =>
    obtain rfl : s = t := by simpa [exec] using h
    exact .refl
  | cons a as ih =>
    obtain ⟨u, taken, rest⟩ := Option.bind_eq_some_iff.mp h
    by_cases cond : P s a
    · have one : Reaches step P s u := Reaches.refl.snoc cond (by simpa [guarded, cond] using taken)
      exact one.trans (ih rest)
    · simp [guarded, cond] at taken

/-! ## Every step of one run -/

/-- Every step of the run meets `P`. Behind an action that is not enabled there are no steps. -/
def EachStep (step : σ → α → Option σ) (P : σ → α → Prop) : σ → List α → Prop
  | _, [] => True
  | s, a :: as => P s a ∧ ∀ t, step s a = some t → EachStep step P t as

/-- Two conditions that agree on the states of an invariant, which one of them maintains, hold
along the same runs. -/
theorem eachStep_iff {I : σ → Prop} (init : I s) (agree : ∀ s a, I s → (P s a ↔ Q s a))
    (keep : ∀ s a t, I s → Q s a → step s a = some t → I t) (as : List α) :
    EachStep step P s as ↔ EachStep step Q s as := by
  induction as generalizing s with
  | nil => exact Iff.rfl
  | cons a as ih =>
    simp only [EachStep, agree s a init]
    refine and_congr_right fun cond => forall_congr' fun t => imp_congr_right fun taken => ?_
    exact ih (keep s a t init cond taken)

/-- What holds after every step of a run holds at its end. -/
theorem EachStep.of_exec {G : σ → Prop} {as : List α} (nonempty : as ≠ [])
    (along : EachStep step (fun s a => ∀ t, step s a = some t → G t) s as)
    (run : exec step s as = some t) : G t := by
  induction as generalizing s with
  | nil => exact absurd rfl nonempty
  | cons a as ih =>
    obtain ⟨u, taken, rest⟩ := Option.bind_eq_some_iff.mp run
    cases as with
    | nil =>
      obtain rfl : u = t := by simpa [exec] using rest
      exact along.1 u taken
    | cons b bs => exact ih (by simp) (along.2 u taken) rest

end Kconmon.Lib
