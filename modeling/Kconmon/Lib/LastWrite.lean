import Mathlib.Data.List.Basic

/-!
# Last write wins

A register that every event either overwrites with a value of its own or leaves
alone. Replaying events that a run has already seen cannot change it.
-/
namespace Kconmon.Lib

variable {σ α υ : Type*} {step : σ → α → σ} {view : σ → υ} {write : α → Option υ} {P : α → Prop}

/-- Every event that meets `P` writes the register `view` or leaves it as it is. -/
def LastWrite (step : σ → α → σ) (P : α → Prop) (view : σ → υ) (write : α → Option υ) : Prop :=
  ∀ s a, P a → view (step s a) = (write a).getD (view s)

/-- The register of `r` holds what it holds in `h`, or what it will hold once `h` has taken the
events `as`. -/
def Ahead (step : σ → α → σ) (view : σ → υ) (as : List α) (r h : σ) : Prop :=
  view r = view h ∨ view r = view (as.foldl step h)

theorem LastWrite.ahead_step (law : LastWrite step P view write) {a : α} (ha : P a) {as : List α}
    {r h : σ} (ahead : Ahead step view (a :: as) r h) : Ahead step view as (step r a) (step h a) :=
      by
  unfold Ahead
  rw [law r a ha]
  cases written : write a with
  | some v =>
    left
    rw [law h a ha, written]
    rfl
  | none =>
    refine ahead.imp (fun now => ?_) fun final => final
    rw [law h a ha, written]
    exact now

/-- Two runs over the same events end with the same register when one starts ahead of the other. -/
theorem LastWrite.replay (law : LastWrite step P view write) {as : List α} (has : ∀ a ∈ as, P a)
    {r h : σ} (ahead : Ahead step view as r h) :
    view (as.foldl step r) = view (as.foldl step h) := by
  induction as generalizing r h with
  | nil => exact ahead.elim id id
  | cons a as ih =>
    obtain ⟨ha, rest⟩ := List.forall_mem_cons.mp has
    exact ih rest (law.ahead_step ha ahead)

end Kconmon.Lib
