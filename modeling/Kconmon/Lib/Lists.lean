import Mathlib.Logic.Relation
import Mathlib.Data.List.Basic

/-!
# Facts about lists

A relation that steps from each position of a list to the next, and from the
last to the first, reaches every element from every other. In a list whose
elements have distinct keys, filtering by the key of one leaves that one. What a
filter makes of some elements, led back to them, is a part of the list. Of the
elements with one key, a loop that skips keys it has met keeps the first.
-/
namespace Kconmon.Lib

variable {α : Type*}

variable {l : List α} {x : α}

theorem reflTransGen_cycle {R : α → α → Prop}
    (next : ∀ i j x y, j = (i + 1) % l.length → l[i]? = some x → l[j]? = some y → R x y) {y : α}
    (hx : x ∈ l) (hy : y ∈ l) : Relation.ReflTransGen R x y := by
  obtain ⟨i, hi, rfl⟩ := List.getElem_of_mem hx
  obtain ⟨j, hj, rfl⟩ := List.getElem_of_mem hy
  have pos : 0 < l.length := by omega
  have walk : ∀ d, Relation.ReflTransGen R (l.get ⟨i, hi⟩)
      (l.get ⟨(i + d) % l.length, Nat.mod_lt _ pos⟩) := by
    intro d
    induction d with
    | zero => simp [Nat.mod_eq_of_lt hi, Relation.ReflTransGen.refl]
    | succ d ih =>
      refine ih.tail (next ((i + d) % l.length) ((i + (d + 1)) % l.length) _ _ ?_
        (by simp [pos, Nat.mod_lt]) (by simp [pos, Nat.mod_lt]))
      rw [Nat.mod_add_mod, Nat.add_assoc]
  have round : (i + (l.length - i + j)) % l.length = j := by
    rw [show i + (l.length - i + j) = j + l.length by omega, Nat.add_mod_right, Nat.mod_eq_of_lt hj]
  have reached := walk (l.length - i + j)
  simpa [round] using reached

theorem filter_key_eq_singleton {κ : Type*} [DecidableEq κ] {key : α → κ}
    (distinct : (l.map key).Nodup) (hx : x ∈ l) : l.filter (fun y => key y = key x) = [x] := by
  induction l with
  | nil => simp at hx
  | cons y l ih =>
    rw [List.map_cons, List.nodup_cons] at distinct
    rcases List.mem_cons.mp hx with rfl | hx
    · have others : l.filter (fun y => key y = key x) = [] := by
        refine List.filter_eq_nil_iff.mpr fun z hz same => distinct.1 ?_
        rw [← of_decide_eq_true same]
        exact List.mem_map_of_mem hz
      simp [others]
    · have differ : key y ≠ key x := fun same => distinct.1 (same ▸ List.mem_map_of_mem hx)
      simp [differ, ih distinct.2 hx]

theorem map_filterMap_sublist {β : Type*} {f : α → Option β} {g : β → α}
    (back : ∀ a b, f a = some b → g b = a) (l : List α) : ((l.filterMap f).map g).Sublist l := by
  induction l with
  | nil => exact .refl _
  | cons a l ih => cases made : f a <;> grind

/-- No element before it has its key. -/
def IsFirst {κ : Type*} (key : α → κ) (l : List α) (x : α) : Prop :=
  ∃ before after, l = before ++ x :: after ∧ ∀ y ∈ before, key y ≠ key x

theorem isFirst_of_nodup {κ : Type*} {key : α → κ} (distinct : (l.map key).Nodup) (hx : x ∈ l) :
    IsFirst key l x := by
  obtain ⟨before, after, rfl⟩ := List.append_of_mem hx
  refine ⟨before, after, rfl, fun y hy same => ?_⟩
  rw [List.map_append, List.map_cons, List.nodup_append] at distinct
  exact distinct.2.2 (key y) (List.mem_map_of_mem hy) (key x) (by simp) same

theorem isFirst_append_singleton {κ : Type*} {key : α → κ} {y : α} :
    IsFirst key (l ++ [y]) x ↔ IsFirst key l x ∨ (x = y ∧ ∀ z ∈ l, key z ≠ key y) := by
  constructor
  · rintro ⟨before, after, split, new⟩
    rcases List.eq_nil_or_concat after with rfl | ⟨after, z, rfl⟩
    · obtain ⟨rfl, same⟩ := List.append_inj' split rfl
      obtain rfl : y = x := by simpa using same
      exact .inr ⟨rfl, new⟩
    · have parts : l ++ [y] = (before ++ x :: after) ++ [z] := by simpa using split
      exact .inl ⟨before, after, (List.append_inj' parts rfl).1, new⟩
  · rintro (⟨before, after, rfl, new⟩ | ⟨rfl, new⟩)
    · exact ⟨before, after ++ [y], by simp, new⟩
    · exact ⟨l, [], rfl, new⟩

end Kconmon.Lib
