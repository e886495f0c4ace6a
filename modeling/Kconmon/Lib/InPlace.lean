import Mathlib.Data.List.Basic

/-!
# Filtering a slice in place

A loop reads a slice from front to back and writes the elements it keeps over the slice's
own start. It has never written past the place it reads, so what it reads is what was
there, and what it has written at the end is the filtered list.
-/
namespace Kconmon.Lib

variable {α : Type*}

/-- The slice and the number of elements written. -/
structure Sweep (α : Type*) where
  backing : List α
  kept : Nat

def Sweep.read (p : α → Bool) (s : Sweep α) (i : Nat) : Sweep α :=
  match s.backing[i]? with
  | some x => if p x then ⟨s.backing.set s.kept x, s.kept + 1⟩ else s
  | none => s

def filterInPlace (p : α → Bool) (l : List α) : List α :=
  let s := (List.range l.length).foldl (Sweep.read p) ⟨l, 0⟩
  s.backing.take s.kept

/-- After `i` reads of `l`. -/
structure Sweep.After (p : α → Bool) (l : List α) (i : Nat) (s : Sweep α) : Prop where
  behind : s.kept ≤ i
  length : s.backing.length = l.length
  written : s.backing.take s.kept = (l.take i).filter p
  unread : s.backing.drop i = l.drop i

variable {p : α → Bool} {l : List α} {i : Nat} {s : Sweep α}

theorem Sweep.After.read (after : s.After p l i) (bound : i < l.length) :
    (s.read p i).After p l (i + 1) := by
  have place : s.backing[i]? = l[i]? := by
    have heads := congrArg List.head? after.unread
    simpa [List.head?_drop] using heads
  have rest : s.backing.drop (i + 1) = l.drop (i + 1) := by
    have tails := congrArg (List.drop 1) after.unread
    simpa [List.drop_drop] using tails
  have step : l.take (i + 1) = l.take i ++ [l[i]] := by
    rw [List.take_add_one, List.getElem?_eq_getElem bound, Option.toList_some]
  have behind := after.behind
  have length := after.length
  have now : s.read p i =
      if p l[i] then ⟨s.backing.set s.kept l[i], s.kept + 1⟩ else s := by
    rw [Sweep.read, place, List.getElem?_eq_getElem bound]
  rw [now]
  by_cases test : p l[i] = true
  · have keep : (s.backing.set s.kept l[i]).take (s.kept + 1) = s.backing.take s.kept ++ [l[i]] :=
      by
      rw [List.take_add_one, List.getElem?_set_self (by omega), Option.toList_some,
        List.take_set_of_le (Nat.le_refl _)]
    rw [if_pos test]
    refine ⟨Nat.succ_le_succ behind, by simpa using length, ?_, ?_⟩
    · rw [keep, after.written, step, List.filter_append, List.filter_cons_of_pos test,
        List.filter_nil]
    · rw [List.drop_set_of_lt (by omega), rest]
  · rw [if_neg test]
    refine ⟨Nat.le_succ_of_le behind, length, ?_, rest⟩
    rw [after.written, step, List.filter_append, List.filter_cons_of_neg test, List.filter_nil,
      List.append_nil]

theorem Sweep.after_range (bound : i ≤ l.length) :
    ((List.range i).foldl (Sweep.read p) ⟨l, 0⟩).After p l i := by
  induction i with
  | zero => exact ⟨Nat.le_refl _, rfl, by simp, rfl⟩
  | succ i ih =>
    rw [List.range_succ, List.foldl_append]
    exact (ih (by omega)).read (by omega)

theorem filterInPlace_eq (p : α → Bool) (l : List α) : filterInPlace p l = l.filter p := by
  have after := Sweep.after_range (p := p) (l := l) (Nat.le_refl l.length)
  have written := after.written
  rw [List.take_length] at written
  exact written

end Kconmon.Lib
