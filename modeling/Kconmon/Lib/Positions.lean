import Kconmon.Lib.GoMap

/-!
# Maps from keys to positions

A list whose elements have keys is kept together with a map that says where each
key stands. Elements are added at the end or replaced where they stand.
-/
namespace Kconmon.Lib

variable {κ α : Type*} [DecidableEq κ]

/-- The map finds each key of the list at its position, and no other keys. -/
def Indexes (index : GoMap κ Nat) (keys : List κ) : Prop :=
  ∀ key pos, index.lookup key = some pos ↔ keys[pos]? = some key

theorem indexes_empty : Indexes (∅ : GoMap κ Nat) [] := by
  intro key pos
  simp

variable {index : GoMap κ Nat} {keys : List κ}

theorem Indexes.isSome_iff (indexes : Indexes index keys) (key : κ) :
    (index.lookup key).isSome ↔ key ∈ keys := by
  rw [Option.isSome_iff_exists, List.mem_iff_getElem?]
  exact exists_congr fun pos => indexes key pos

theorem Indexes.append (indexes : Indexes index keys) {key : κ} (unknown : key ∉ keys) :
    Indexes (AList.insert key keys.length index) (keys ++ [key]) := by
  intro key' pos
  rw [GoMap.lookup_insert_if]
  rcases lt_trichotomy pos keys.length with inside | rfl | outside
  · rw [List.getElem?_append_left inside]
    split_ifs with own
    · subst own
      have elsewhere : keys.length ≠ pos := by omega
      have other : keys[pos]? ≠ some key' := fun held => unknown (List.mem_of_getElem? held)
      simp [elsewhere, other]
    · exact indexes key' pos
  · rw [List.getElem?_append_right le_rfl, Nat.sub_self, List.getElem?_cons_zero]
    split_ifs with own
    · simp [own]
    · have absent : index.lookup key' ≠ some keys.length := by
        rw [ne_eq, indexes, List.getElem?_eq_none le_rfl]
        exact nofun
      simp [absent, Ne.symm own]
  · have past : (keys ++ [key])[pos]? = none :=
      List.getElem?_eq_none (by rw [List.length_append, List.length_singleton]; omega)
    rw [past]
    split_ifs
    · have elsewhere : keys.length ≠ pos := by omega
      simp [elsewhere]
    · rw [indexes, List.getElem?_eq_none (Nat.le_of_lt outside)]
      exact ⟨nofun, nofun⟩

variable {key : α → κ} {l : List α}

/-- Writing where the key of an element stands replaces what has that key. -/
theorem Indexes.modify_eq_map (indexes : Indexes index (l.map key)) {x : α} {pos : Nat}
    (found : index.lookup (key x) = some pos) :
    (l.modify pos fun _ => x) = l.map fun y => if key y = key x then x else y := by
  apply List.ext_getElem?
  intro n
  rw [List.getElem?_modify, List.getElem?_map]
  cases held : l[n]? with
  | none => rfl
  | some y =>
    have keyed : (l.map key)[n]? = some (key y) := by rw [List.getElem?_map, held, Option.map_some]
    have stands : pos = n ↔ key y = key x := by
      constructor
      · rintro rfl
        exact Option.some.inj (keyed.symm.trans ((indexes (key x) pos).mp found))
      · intro same
        have there := (indexes (key y) n).mpr keyed
        rw [same, found] at there
        exact Option.some.inj there
    by_cases same : key y = key x <;> simp [stands, same]

/-- What was replaced stands where it stood. -/
theorem Indexes.replace (indexes : Indexes index (l.map key)) (x : α) :
    Indexes index ((l.map fun y => if key y = key x then x else y).map key) := by
  suffices keys : (l.map fun y => if key y = key x then x else y).map key = l.map key from
    keys.symm ▸ indexes
  rw [List.map_map]
  refine List.map_congr_left fun y _ => ?_
  rw [Function.comp_apply]
  split_ifs with same
  · exact same.symm
  · rfl

end Kconmon.Lib
