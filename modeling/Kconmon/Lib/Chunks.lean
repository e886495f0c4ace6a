import Mathlib.Data.List.Basic

/-!
# Cutting a list into chunks

A loop takes the slices `l[start:end]` of a list, each as long as the others but the last, which
holds what is left.
-/
namespace Kconmon.Lib

variable {α : Type*}

/-- The iterations from `start` on; each takes at least one element, so `fuel` elements are enough
for the rest of the list. -/
def chunksFrom (l : List α) (size : Nat) : (fuel start : Nat) → List (List α)
  | 0, _ => []
  | fuel + 1, start =>
    if start < l.length then
      (l.take (min (start + size) l.length)).drop start :: chunksFrom l size fuel (start + size)
    else []

def chunks (l : List α) (size : Nat) : List (List α) := chunksFrom l size l.length 0

variable {l : List α} {size : Nat}

theorem slice_eq (l : List α) (size start : Nat) :
    (l.take (min (start + size) l.length)).drop start = (l.drop start).take size := by
  have within : l.take (min (start + size) l.length) = l.take (start + size) :=
    List.take_eq_take_min.symm
  rw [within, List.drop_take, Nat.add_sub_cancel_left]

variable {fuel start : Nat}

section
variable (positive : 0 < size)
include positive

/-- The chunks together are the list. -/
theorem flatten_chunksFrom (enough : l.length ≤ start + fuel) :
    (chunksFrom l size fuel start).flatten = l.drop start := by
  induction fuel generalizing start with
  | zero => rw [chunksFrom, List.flatten_nil, List.drop_of_length_le (by omega)]
  | succ fuel ih =>
    rw [chunksFrom]
    split
    · rw [List.flatten_cons, slice_eq, ih (by omega), ← List.drop_drop, List.take_append_drop]
    · rw [List.flatten_nil, List.drop_of_length_le (by omega)]

theorem flatten_chunks : (chunks l size).flatten = l := by
  rw [chunks, flatten_chunksFrom positive (by omega), List.drop_zero]

/-- No chunk is empty, and none is longer than the others. -/
theorem length_of_mem_chunksFrom {chunk : List α}
    (listed : chunk ∈ chunksFrom l size fuel start) : 0 < chunk.length ∧ chunk.length ≤ size := by
  induction fuel generalizing start with
  | zero => simp [chunksFrom] at listed
  | succ fuel ih =>
    rw [chunksFrom] at listed
    split at listed
    · rcases List.mem_cons.mp listed with rfl | later
      · rw [slice_eq, List.length_take, List.length_drop]
        omega
      · exact ih later
    · simp at listed

/-- There are as many chunks as fit, and one more for the rest. -/
theorem length_chunksFrom (enough : l.length ≤ start + fuel) :
    (chunksFrom l size fuel start).length = (l.length - start + size - 1) / size := by
  induction fuel generalizing start with
  | zero =>
    rw [chunksFrom, List.length_nil, eq_comm, Nat.div_eq_of_lt]
    omega
  | succ fuel ih =>
    rw [chunksFrom]
    split
    · rw [List.length_cons, ih (by omega)]
      rcases Nat.lt_or_ge (l.length - start) size with rest | more
      · have one : (l.length - start + size - 1) / size = 1 :=
          Nat.div_eq_of_lt_le (by omega) (by omega)
        rw [one, Nat.div_eq_of_lt (by omega)]
      · have split : l.length - start + size - 1 =
            (l.length - (start + size) + size - 1) + size := by omega
        rw [split, Nat.add_div_right _ positive]
    · rw [List.length_nil, eq_comm, Nat.div_eq_of_lt]
      omega

theorem length_chunks : (chunks l size).length = (l.length + size - 1) / size := by
  rw [chunks, length_chunksFrom positive (by omega), Nat.sub_zero]

end

/-- Lists that together have no duplicates hold each of their elements once. -/
theorem countP_mem_eq_one [DecidableEq α] {parts : List (List α)} (distinct : parts.flatten.Nodup)
    {x : α} (listed : x ∈ parts.flatten) : parts.countP (x ∈ ·) = 1 := by
  induction parts with
  | nil => simp at listed
  | cons part parts ih =>
    rw [List.flatten_cons, List.nodup_append] at distinct
    rw [List.flatten_cons, List.mem_append] at listed
    by_cases here : x ∈ part
    · have nowhere : parts.countP (x ∈ ·) = 0 := by
        refine List.countP_eq_zero.mpr fun other there member => ?_
        have again : x ∈ parts.flatten := List.mem_flatten.mpr ⟨other, there, by simpa using member⟩
        exact distinct.2.2 x here x again rfl
      rw [List.countP_cons, nowhere]
      simp [here]
    · rw [List.countP_cons, ih distinct.2.1 (listed.resolve_left here)]
      simp [here]

end Kconmon.Lib
