import Mathlib.Data.List.AList

/-!
# Maps and the order in which they are visited

A map is an association list without repeated keys. `range` over a map visits
its entries in an order that the language leaves open; `RangeOrder` is one
choice of these orders, free to differ from loop to loop.
-/
namespace Kconmon.Lib

abbrev GoMap (κ ν : Type*) := AList (fun _ : κ => ν)

namespace GoMap

variable {κ ν : Type*} [DecidableEq κ]

attribute [grind =] AList.lookup_empty

@[grind =] theorem lookup_insert_if (m : GoMap κ ν) (k k' : κ) (v : ν) :
    (AList.insert k v m).lookup k' = if k' = k then some v else m.lookup k' := by
  by_cases h : k' = k
  · subst h; simp
  · simp [h]

@[grind =] theorem lookup_erase_if (m : GoMap κ ν) (k k' : κ) :
    (AList.erase k m).lookup k' = if k' = k then none else m.lookup k' := by
  by_cases h : k' = k
  · subst h; simp
  · simp [h]

variable {m : GoMap κ ν} {k k' : κ} {v' : ν}

theorem cases_insert {v : ν} (held : (AList.insert k v m).lookup k' = some v') :
    (k' = k ∧ v' = v) ∨ (k' ≠ k ∧ m.lookup k' = some v') := by
  rw [lookup_insert_if] at held
  grind

/-- What holds of every value, and of a new one, holds of every value once that is inserted. -/
theorem forall_insert {P : ν → Prop} {v : ν} (all : ∀ {k v}, m.lookup k = some v → P v) (new : P v)
    (held : (AList.insert k v m).lookup k' = some v') : P v' := by
  rw [lookup_insert_if] at held
  split at held
  · cases held; exact new
  · exact all held

theorem forall_entry_insert {P : κ → ν → Prop} {v : ν} (all : ∀ {k v}, m.lookup k = some v → P k v)
    (new : P k v) (held : (AList.insert k v m).lookup k' = some v') : P k' v' := by
  rw [lookup_insert_if] at held
  split at held
  · rename_i same
    cases held
    exact same ▸ new
  · exact all held

theorem forall_erase {P : ν → Prop} (all : ∀ {k v}, m.lookup k = some v → P v)
    (held : (AList.erase k m).lookup k' = some v') : P v' := by
  rw [lookup_erase_if] at held
  split at held
  · cases held
  · exact all held

/-- Building a map from a list of keys, one entry for each of them. -/
def ofKeys (keys : List κ) (v : ν) : GoMap κ ν := keys.foldl (fun m k => AList.insert k v m) ∅

theorem lookup_foldl_insert (keys : List κ) (v : ν) (m : GoMap κ ν) (k : κ) :
    (keys.foldl (fun m k => AList.insert k v m) m).lookup k =
      if k ∈ keys then some v else m.lookup k := by
  induction keys generalizing m with
  | nil => simp
  | cons k' ks ih =>
    rw [List.foldl_cons, ih, lookup_insert_if]
    by_cases hk : k ∈ ks <;> by_cases he : k = k' <;> simp [hk, he]

@[simp, grind =] theorem lookup_ofKeys (keys : List κ) (v : ν) (k : κ) :
    (ofKeys keys v : GoMap κ ν).lookup k = if k ∈ keys then some v else none := by
  simp [ofKeys, lookup_foldl_insert]

/-- Inserting the image of each entry of a list with distinct keys. -/
theorem lookup_foldl_entries {μ : Type*} (f : κ → ν → μ) (l : List (Sigma fun _ : κ => ν))
    (distinct : l.NodupKeys) (m : GoMap κ μ) (k : κ) :
    (l.foldl (fun p e => AList.insert e.1 (f e.1 e.2) p) m).lookup k =
      match l.dlookup k with
      | some v => some (f k v)
      | none => m.lookup k := by
  induction l generalizing m with
  | nil => simp
  | cons e l ih =>
    obtain ⟨k', v⟩ := e
    have rest := List.nodupKeys_of_nodupKeys_cons distinct
    rw [List.foldl_cons, ih rest, lookup_insert_if]
    by_cases he : k = k'
    · subst he
      have fresh : l.dlookup k = none :=
        List.dlookup_eq_none.mpr (List.notMem_keys_of_nodupKeys_cons distinct)
      simp [fresh]
    · simp [he, List.dlookup_cons_ne]

/-- The map that a loop over the entries of `m` fills, in whatever order it visits them. -/
theorem lookup_foldl_perm {μ : Type*} (f : ν → μ) (m : GoMap κ ν)
    {l : List (Sigma fun _ : κ => ν)} (visited : l.Perm m.entries) (k : κ) :
    (l.foldl (fun p e => AList.insert e.1 (f e.2) p) (∅ : GoMap κ μ)).lookup k =
      (m.lookup k).map f := by
  have distinct : l.NodupKeys := (List.perm_nodupKeys visited).mpr m.nodupKeys
  rw [lookup_foldl_entries (fun _ => f) l distinct, List.perm_dlookup k distinct visited]
  change _ = Option.map f (m.entries.dlookup k)
  cases m.entries.dlookup k <;> simp

/-- Filling a map from pairs with distinct keys. -/
theorem lookup_foldl_pairs (l : List (κ × ν)) (distinct : (l.map Prod.fst).Nodup) (m : GoMap κ ν)
    (k : κ) :
    (l.foldl (fun m e => AList.insert e.1 e.2 m) m).lookup k = (l.lookup k).or (m.lookup k) := by
  induction l generalizing m with
  | nil => simp
  | cons e l ih =>
    obtain ⟨k', v⟩ := e
    obtain ⟨fresh, rest⟩ := List.nodup_cons.mp distinct
    rw [List.foldl_cons, ih rest, lookup_insert_if, List.lookup_cons]
    by_cases same : k = k'
    · subst same
      have none_left : l.lookup k = none := by
        rw [List.lookup_eq_none_iff]
        intro e he
        have differ : k ≠ e.1 := by
          rintro rfl
          exact fresh (List.mem_map.mpr ⟨e, he, rfl⟩)
        simpa using differ
      simp [none_left]
    · simp [same, beq_eq_false_iff_ne.mpr same]

/-- Collecting values under their keys, in the order in which they come. -/
theorem lookup_foldl_append {α : Type*} (key : α → κ) (val : α → ν) (l : List α)
    (m : GoMap κ (List ν)) (k : κ) :
    ((l.foldl (fun m x => AList.insert (key x) ((m.lookup (key x)).getD [] ++ [val x]) m)
      m).lookup k).getD [] = (m.lookup k).getD [] ++ (l.filter (key · = k)).map val := by
  induction l generalizing m with
  | nil => simp
  | cons x l ih =>
    rw [List.foldl_cons, ih, lookup_insert_if]
    by_cases same : key x = k
    · subst same
      simp
    · simp [same, Ne.symm same]

/-- Filling a map entry by entry, the last value under a key stands. -/
theorem lookup_foldl_keyed {α : Type*} (key : α → κ) (val : α → ν) (l : List α) (m : GoMap κ ν)
    (k : κ) : (l.foldl (fun m x => AList.insert (key x) (val x) m) m).lookup k =
      ((l.filter (key · = k)).getLast?.map val).or (m.lookup k) := by
  induction l generalizing m with
  | nil => rfl
  | cons x l ih =>
    rw [List.foldl_cons, ih, lookup_insert_if]
    by_cases same : key x = k
    · subst same
      rw [List.filter_cons_of_pos (by simp), List.getLast?_cons, if_pos rfl]
      cases (l.filter (key · = key x)).getLast? <;> rfl
    · rw [List.filter_cons_of_neg (by simpa using same), if_neg (Ne.symm same)]

theorem lookup_of_entries_nil (empty : m.entries = []) (k : κ) : m.lookup k = none := by
  obtain rfl : m = ∅ := AList.ext empty
  exact AList.lookup_empty k

/-- A loop that overwrites the value of every key. -/
def mapValues (f : ν → ν) (m : GoMap κ ν) : GoMap κ ν :=
  m.entries.foldl (fun p e => AList.insert e.1 (f e.2) p) m

@[simp, grind =] theorem lookup_mapValues (f : ν → ν) (m : GoMap κ ν) (k : κ) :
    (mapValues f m).lookup k = (m.lookup k).map f := by
  have stored : m.entries.dlookup k = m.lookup k := rfl
  rw [mapValues, lookup_foldl_entries (fun _ => f) m.entries m.nodupKeys m k, stored]
  cases m.lookup k <;> rfl

/-- A loop that deletes every key whose value fails the test. -/
def sieve (p : ν → Bool) (m : GoMap κ ν) : GoMap κ ν :=
  ⟨m.entries.filter fun e => p e.2, m.nodupKeys.sublist List.filter_sublist⟩

@[simp, grind =] theorem lookup_sieve (p : ν → Bool) (m : GoMap κ ν) (k : κ) :
    (sieve p m).lookup k = (m.lookup k).filter p := by
  refine Option.ext fun v => ?_
  have kept : v ∈ (sieve p m).lookup k ↔ v ∈ m.lookup k ∧ p v = true := by
    rw [AList.mem_lookup_iff, AList.mem_lookup_iff]
    exact List.mem_filter
  simpa [Option.filter_eq_some_iff] using kept

/-- A loop that deletes every key that fails the test. -/
def sieveKeys (p : κ → Bool) (m : GoMap κ ν) : GoMap κ ν :=
  ⟨m.entries.filter fun e => p e.1, m.nodupKeys.sublist List.filter_sublist⟩

@[simp, grind =] theorem lookup_sieveKeys (p : κ → Bool) (m : GoMap κ ν) (k : κ) :
    (sieveKeys p m).lookup k = if p k then m.lookup k else none := by
  refine Option.ext fun v => ?_
  have kept : v ∈ (sieveKeys p m).lookup k ↔ v ∈ m.lookup k ∧ p k = true := by
    rw [AList.mem_lookup_iff, AList.mem_lookup_iff]
    exact List.mem_filter
  cases test : p k <;> simpa [test] using kept

@[grind =] theorem mem_sieveKeys {p : κ → Bool} :
    k ∈ sieveKeys p m ↔ k ∈ m ∧ p k = true := by
  rw [← AList.lookup_isSome, ← AList.lookup_isSome, lookup_sieveKeys]
  cases p k <;> simp

omit [DecidableEq κ] in
theorem nodupKeys_images {μ : Type*} (f : ν → μ) (m : GoMap κ ν) :
    (m.entries.map (Sigma.map id fun _ => f) : List (Sigma fun _ : κ => μ)).NodupKeys := by
  change (List.map Sigma.fst _).Nodup
  rw [List.map_map]
  exact m.nodupKeys

/-- The map with every value replaced by its image. -/
def mapped {μ : Type*} (f : ν → μ) (m : GoMap κ ν) : GoMap κ μ :=
  ⟨m.entries.map (Sigma.map id fun _ => f), nodupKeys_images f m⟩

@[simp, grind =] theorem lookup_mapped {μ : Type*} (f : ν → μ) (m : GoMap κ ν) (k : κ) :
    (mapped f m).lookup k = (m.lookup k).map f := List.dlookup_map₂ k

theorem perm_entries (m m' : GoMap κ ν) (same : ∀ k, m.lookup k = m'.lookup k) :
    m.entries.Perm m'.entries :=
  List.lookup_ext m.nodupKeys m'.nodupKeys fun k v => iff_of_eq (congrArg (v ∈ ·) (same k))

/-- Two maps whose values have the same images list these images in some order each. -/
theorem perm_images {ν' μ : Type*} (f : ν → μ) (g : ν' → μ) {m' : GoMap κ ν'}
    (same : ∀ k, (m.lookup k).map f = (m'.lookup k).map g) :
    (m.entries.map fun e => f e.2).Perm (m'.entries.map fun e => g e.2) := by
  have perm := List.lookup_ext (nodupKeys_images f m) (nodupKeys_images g m') fun k v => by
    rw [List.dlookup_map₂, List.dlookup_map₂]
    exact iff_of_eq (congrArg (v ∈ ·) (same k))
  simpa [Function.comp_def, Sigma.map] using perm.map Sigma.snd

/-- Two maps with the same images under `f` list these images in some order each. -/
theorem perm_values {μ : Type*} (f : ν → μ) {m' : GoMap κ ν}
    (same : ∀ k, (m.lookup k).map f = (m'.lookup k).map f) :
    (m.entries.map fun e => f e.2).Perm (m'.entries.map fun e => f e.2) := perm_images f f same

end GoMap

/-- One choice of visiting orders; `site` tells the loops of a function apart. -/
structure RangeOrder where
  visit : Nat → {α : Type} → List α → List α
  perm : ∀ (site : Nat) {α : Type} (l : List α), (visit site l).Perm l

@[simp, grind =] theorem RangeOrder.mem_visit (ord : RangeOrder) (site : Nat) {α : Type}
    {l : List α}
    {x : α} : x ∈ ord.visit site l ↔ x ∈ l := (ord.perm site l).mem_iff

/-- Entries visited in the order in which they are stored. -/
def RangeOrder.stored : RangeOrder where
  visit _ _ l := l
  perm _ _ l := List.Perm.refl l

end Kconmon.Lib
