import Mathlib.Data.List.DropRight

/-!
# Rings that keep the newest entries

A ring takes a new entry at its end and is cut from the front back to its bound. Filled from
empty, it is the last entries of everything it ever took.
-/
namespace Kconmon.Lib.Ring

variable {α : Type*}

def push (bound : Nat) (ring : List α) (x : α) : List α :=
  let ring := ring ++ [x]
  if bound < ring.length then ring.drop (ring.length - bound) else ring

theorem push_eq_rtake (bound : Nat) (ring : List α) (x : α) :
    push bound ring x = (ring ++ [x]).rtake bound := by
  dsimp only [push]
  split
  · rfl
  · rw [List.rtake, show (ring ++ [x]).length - bound = 0 by omega, List.drop_zero]

/-- One more entry, and the ring is again the last entries of everything it took. -/
theorem push_rtake (bound : Nat) (taken : List α) (x : α) :
    push bound (taken.rtake bound) x = (taken ++ [x]).rtake bound := by
  rw [push_eq_rtake]
  simp only [List.rtake, List.length_append, List.length_drop, List.length_cons, List.length_nil]
  rcases Nat.lt_or_ge bound (taken.length + 1) with full | room
  · have cut : taken.length - bound ≤ taken.length := by omega
    rw [← List.drop_append_of_le_length cut, List.drop_drop]
    congr 1
    omega
  · simp [show taken.length - bound = 0 by omega]

theorem length_rtake (bound : Nat) (taken : List α) :
    (taken.rtake bound).length = min bound taken.length := by
  simp only [List.rtake, List.length_drop]
  omega

end Kconmon.Lib.Ring
