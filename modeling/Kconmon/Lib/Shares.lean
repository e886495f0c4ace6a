import Mathlib.Algebra.BigOperators.Group.List.Basic
import Mathlib.Algebra.GroupWithZero.Nat
import Mathlib.Data.List.Nodup

/-!
# Shares of a list

How many elements of a list have each key, and what the average of such counts is when they are
nearly equal.
-/
namespace Kconmon.Lib

/-- A key of a list without repetitions is met once. -/
theorem sum_indicator {κ : Type*} [DecidableEq κ] {keys : List κ} (distinct : keys.Nodup) {key : κ}
    (known : key ∈ keys) : (keys.map fun k => if key = k then 1 else 0).sum = 1 := by
  induction keys with
  | nil => simp at known
  | cons k keys ih =>
    obtain ⟨fresh, distinct⟩ := List.nodup_cons.mp distinct
    rw [List.map_cons, List.sum_cons]
    rcases List.mem_cons.mp known with rfl | known
    · have others : ∀ k ∈ keys, (if key = k then 1 else 0) = 0 := by
        rintro k mem
        rw [if_neg]
        rintro rfl
        exact fresh mem
      rw [if_pos rfl, List.sum_eq_zero (by simpa using others), Nat.add_zero]
    · have other : key ≠ k := fun same => fresh (same ▸ known)
      rw [if_neg other, ih distinct known]

/-- Counted key by key, every element is counted once. -/
theorem sum_countP_key {α κ : Type*} [DecidableEq κ] {key : α → κ} {keys : List κ}
    (distinct : keys.Nodup) {l : List α} (known : ∀ x ∈ l, key x ∈ keys) :
    (keys.map fun k => l.countP (key · = k)).sum = l.length := by
  induction l with
  | nil => simp
  | cons x l ih =>
    have counts : (fun k => (x :: l).countP (key · = k)) =
        fun k => l.countP (key · = k) + if key x = k then 1 else 0 := by
      funext k
      simp [List.countP_cons]
    rw [counts, List.sum_map_add, ih fun y mem => known y (by simp [mem]),
      sum_indicator distinct (known x (by simp)), List.length_cons]

variable {shares : List ℕ} {most : ℕ}

theorem sum_le_length_mul (le : ∀ x ∈ shares, x ≤ most) : shares.sum ≤ shares.length * most := by
  induction shares with
  | nil => simp
  | cons x shares ih =>
    have := ih fun y mem => le y (by simp [mem])
    have := le x (by simp)
    rw [List.length_cons, List.sum_cons, Nat.add_mul]
    omega

theorem length_mul_le_sum (near : ∀ x ∈ shares, most ≤ x + 1) :
    shares.length * most ≤ shares.sum + shares.length := by
  induction shares with
  | nil => simp
  | cons x shares ih =>
    have := ih fun y mem => near y (by simp [mem])
    have := near x (by simp)
    rw [List.length_cons, List.sum_cons, Nat.add_mul]
    omega

theorem length_mul_lt_sum (near : ∀ x ∈ shares, most ≤ x + 1) (attained : most ∈ shares) :
    shares.length * most < shares.sum + shares.length := by
  induction shares with
  | nil => simp at attained
  | cons x shares ih =>
    have nearTail : ∀ y ∈ shares, most ≤ y + 1 := fun y mem => near y (by simp [mem])
    rw [List.length_cons, List.sum_cons, Nat.add_mul]
    rcases List.mem_cons.mp attained with rfl | attained
    · have := length_mul_le_sum nearTail
      omega
    · have := ih nearTail attained
      have := near x (by simp)
      omega

/-- Of shares that differ by one at most, the average rounded up is the largest. -/
theorem ceil_average (le : ∀ x ∈ shares, x ≤ most) (near : ∀ x ∈ shares, most ≤ x + 1)
    (attained : most ∈ shares) : (shares.sum + shares.length - 1) / shares.length = most := by
  have pos : 0 < shares.length := List.length_pos_of_mem attained
  have lower := length_mul_lt_sum near attained
  have upper := sum_le_length_mul le
  rw [Nat.div_eq_iff pos]
  rw [Nat.mul_comm] at upper lower
  omega

end Kconmon.Lib
