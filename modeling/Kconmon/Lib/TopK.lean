import Mathlib.Data.List.DropRight
import Mathlib.Data.List.Sort

/-!
# A bounded window over a sort

Inserting one element after the other and keeping only the last `k` entries of the
window ends with the last `k` entries of the sorted whole. A second fact is about a
selection from such a window: as long as at most `d` elements are refused, the first
`k` accepted ones are found among the first `k + d`.
-/
namespace Kconmon.Lib

variable {α : Type*}

variable {k : Nat} {l : List α}

theorem rtake_cons_of_le (a : α) (enough : k ≤ l.length) : (a :: l).rtake k = l.rtake k := by
  have skip : (a :: l).length - k = (l.length - k) + 1 := by
    simp only [List.length_cons]
    omega
  rw [List.rtake, skip, List.drop_succ_cons, List.rtake]

section
variable (r : α → α → Prop) [DecidableRel r]

/-- What has left the window would not come back. -/
theorem rtake_orderedInsert_rtake [IsTrans α r] (sorted : l.Pairwise r) (c : α) (room : 0 < k) :
    ((l.rtake k).orderedInsert r c).rtake k = (l.orderedInsert r c).rtake k := by
  induction l with
  | nil => simp
  | cons a l ih =>
    obtain ⟨first, rest⟩ := List.pairwise_cons.mp sorted
    by_cases short : (a :: l).length ≤ k
    · have whole : (a :: l).rtake k = a :: l := by
        rw [List.rtake, Nat.sub_eq_zero_of_le short, List.drop_zero]
      rw [whole]
    have enough : k ≤ l.length := by
      simp only [List.length_cons] at short
      omega
    rw [rtake_cons_of_le a enough, ih rest]
    by_cases before : r c a
    · -- `c` goes in front of everything, so it falls out on both sides
      obtain ⟨b, l, rfl⟩ := List.exists_cons_of_length_pos (Nat.lt_of_lt_of_le room enough)
      have also : r c b := IsTrans.trans _ _ _ before (first b (by simp))
      rw [List.orderedInsert_cons_of_le _ _ before, List.orderedInsert_cons_of_le _ _ also,
        rtake_cons_of_le c enough, rtake_cons_of_le c (Nat.le_succ_of_le enough),
        rtake_cons_of_le a enough]
    · have longer : k ≤ (l.orderedInsert r c).length := by
        rw [List.orderedInsert_length]
        omega
      rw [List.orderedInsert_cons, if_neg before, rtake_cons_of_le a longer]

/-- The bounded window holds the end of the sorted list. -/
theorem foldl_rtake_orderedInsert [Std.Total r] [IsTrans α r] (room : 0 < k) (l : List α) :
    l.foldl (fun w c => (w.orderedInsert r c).rtake k) [] =
      (l.reverse.insertionSort r).rtake k := by
  induction l using List.reverseRecOn with
  | nil => simp
  | append_singleton l c ih =>
    rw [List.foldl_append, ih, List.reverse_append]
    exact rtake_orderedInsert_rtake r (List.pairwise_insertionSort r _) c room

end

/-- The first `k` accepted elements are among the first `k + d` when `d` bounds the refused. -/
theorem take_filter_take (p : α → Bool) {d : Nat} (few : (l.filter fun x => !p x).length ≤ d) :
    ((l.take (k + d)).filter p).take k = (l.filter p).take k := by
  rcases Nat.le_total l.length (k + d) with short | long
  · rw [List.take_of_length_le short]
  have split : l.filter p = (l.take (k + d)).filter p ++ (l.drop (k + d)).filter p := by
    rw [← List.filter_append, List.take_append_drop]
  have refused : ((l.take (k + d)).filter fun x => !p x).length ≤ d :=
    (((List.take_sublist _ _).filter _).length_le).trans few
  have counted := List.length_eq_length_filter_add (l := l.take (k + d)) p
  rw [List.length_take_of_le long] at counted
  rw [split, List.take_append_of_le_length (by omega)]

end Kconmon.Lib
