import Kconmon.Lib.GoMap

/-!
# The most recently inserted keys

A bounded collection keeps the keys that were inserted last. A key that it keeps is not inserted
again; one that it has dropped is, as a new one. The collection is found again by a map from keys
to their places in the sequence of all insertions, so that dropping the oldest key moves nothing.
-/
namespace Kconmon.Lib

variable {κ : Type*} [DecidableEq κ]

/-- The last `cap` elements. -/
def recent (cap : Nat) (log : List κ) : List κ := log.drop (log.length - cap)

/-- A key that is not kept is inserted. -/
def takeIn (cap : Nat) (log : List κ) (key : κ) : List κ :=
  if key ∈ recent cap log then log else log ++ [key]

/-- The insertions that a sequence of keys makes, in their order. -/
def insertions (cap : Nat) (keys : List κ) : List κ := keys.foldl (takeIn cap) []

theorem insertions_append (cap : Nat) (keys : List κ) (key : κ) :
    insertions cap (keys ++ [key]) = takeIn cap (insertions cap keys) key := by
  rw [insertions, List.foldl_append, List.foldl_cons, List.foldl_nil, insertions]

/-- The map finds each key from place `first` on at its place in the log, and no others. -/
def Locates (index : GoMap κ Nat) (log : List κ) (first : Nat) : Prop :=
  ∀ key pos, index.lookup key = some pos ↔ first ≤ pos ∧ log[pos]? = some key

theorem locates_empty : Locates (∅ : GoMap κ Nat) [] 0 := by
  intro key pos
  simp

section
variable {index : GoMap κ Nat} {log : List κ} {first : Nat} {key : κ}

section
variable (locates : Locates index log first)
include locates

theorem Locates.isSome_iff : (index.lookup key).isSome ↔ key ∈ log.drop first := by
  rw [Option.isSome_iff_exists, List.mem_iff_getElem?]
  constructor
  · rintro ⟨pos, found⟩
    obtain ⟨le, there⟩ := (locates key pos).mp found
    exact ⟨pos - first, by rw [List.getElem?_drop, Nat.add_sub_cancel' le, there]⟩
  · rintro ⟨i, there⟩
    rw [List.getElem?_drop] at there
    exact ⟨first + i, (locates key _).mpr ⟨Nat.le_add_right .., there⟩⟩

/-- No key stands at two places. -/
theorem Locates.nodup : (log.drop first).Nodup := by
  rw [List.nodup_iff_getElem?_ne_getElem?]
  intro i j less inside same
  obtain ⟨key, there⟩ : ∃ key, (log.drop first)[j]? = some key :=
    ⟨_, List.getElem?_eq_getElem inside⟩
  rw [there, List.getElem?_drop] at same
  rw [List.getElem?_drop] at there
  have one := (locates key (first + i)).mpr ⟨Nat.le_add_right .., same⟩
  have two := (locates key (first + j)).mpr ⟨Nat.le_add_right .., there⟩
  rw [one, Option.some.injEq] at two
  omega

theorem Locates.append (within : first ≤ log.length)
    (unknown : key ∉ log.drop first) :
    Locates (AList.insert key log.length index) (log ++ [key]) first := by
  intro key' pos
  have old := locates key' pos
  rw [GoMap.lookup_insert_if]
  rcases lt_trichotomy pos log.length with inside | rfl | outside
  · rw [List.getElem?_append_left inside]
    split_ifs with own
    · subst own
      have absent : ¬ (first ≤ pos ∧ log[pos]? = some key') := by
        rw [← old]
        intro found
        exact unknown (locates.isSome_iff.mp (by simp [found]))
      simp only [absent, iff_false, Option.some.injEq]
      omega
    · exact old
  · grind
  · grind

theorem Locates.evict (oldest : log[first]? = some key) :
    Locates (index.erase key) log (first + 1) := by
  intro key' pos
  have old := locates key' pos
  have own := (locates key first).mpr ⟨le_rfl, oldest⟩
  rw [GoMap.lookup_erase_if]
  grind

end

end

end Kconmon.Lib
