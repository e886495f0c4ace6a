import Kconmon.Lib.GoMap

/-!
# Tables

A table is a map from ids to rows; a listing of it gives the rows.
-/
namespace Kconmon.Lib.GoMap

variable {κ ν : Type*} [DecidableEq κ]

/-- The values of a map, in the order in which a listing gives them. -/
def values (m : GoMap κ ν) : List ν := m.entries.map Sigma.snd

theorem mem_values {m : GoMap κ ν} {v : ν} : v ∈ values m ↔ ∃ k, m.lookup k = some v := by
  constructor
  · intro listed
    obtain ⟨⟨k, v'⟩, entry, rfl⟩ := List.mem_map.mp listed
    exact ⟨k, AList.mem_lookup_iff.mpr entry⟩
  · rintro ⟨k, held⟩
    exact List.mem_map.mpr ⟨⟨k, v⟩, AList.mem_lookup_iff.mp held, rfl⟩

theorem forall_lookup {P : κ → ν → Prop} {m : GoMap κ ν} (all : ∀ e ∈ m.entries, P e.1 e.2) (k : κ)
    (v : ν) (held : m.lookup k = some v) : P k v := all ⟨k, v⟩ (AList.mem_lookup_iff.mp held)

theorem nodup_map_values {key : ν → κ} {m : GoMap κ ν}
    (keyed : ∀ k v, m.lookup k = some v → key v = k) : ((values m).map key).Nodup := by
  have keys : (values m).map key = m.entries.map Sigma.fst := by
    rw [values, List.map_map]
    exact List.map_congr_left fun e entry => keyed e.1 e.2 (AList.mem_lookup_iff.mpr entry)
  exact keys ▸ m.nodupKeys

end Kconmon.Lib.GoMap
