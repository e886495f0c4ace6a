import Mathlib.Data.Finset.Max
import Mathlib.Data.List.MinMax

/-!
# The first of each class

Elements fall into classes, and an element may be filed under several of them. A pair
`(z, n)` files `n` under `z`; the leaders are the pairs whose element is the least of its
class. Two files with the same leaders choose the same elements. The converse holds when
the smaller file keeps every element under one class and the number of elements chosen is
that of the classes of the larger one.
-/
namespace Kconmon.Lib

variable {ζ β : Type*} [DecidableEq ζ] [LinearOrder β]

def leaders (R : Finset (ζ × β)) : Finset (ζ × β) :=
  R.filter fun p => ∀ q ∈ R, q.1 = p.1 → p.2 ≤ q.2

/-- The elements chosen, one for each class. -/
def firsts (R : Finset (ζ × β)) : Finset β := (leaders R).image Prod.snd

def classes (R : Finset (ζ × β)) : Finset ζ := R.image Prod.fst

variable {R S : Finset (ζ × β)} {p q : ζ × β}

theorem mem_leaders : p ∈ leaders R ↔ p ∈ R ∧ ∀ q ∈ R, q.1 = p.1 → p.2 ≤ q.2 := by
  simp [leaders]

theorem leaders_subset : leaders R ⊆ R := Finset.filter_subset _ _

theorem leader_unique (hp : p ∈ leaders R) (hq : q ∈ leaders R) (same : p.1 = q.1) : p = q := by
  obtain ⟨filed, least⟩ := mem_leaders.mp hp
  obtain ⟨filed', least'⟩ := mem_leaders.mp hq
  exact Prod.ext same (le_antisymm (least q filed' same.symm) (least' p filed same))

theorem exists_leader (filed : q ∈ R) : ∃ p ∈ leaders R, p.1 = q.1 ∧ p.2 ≤ q.2 := by
  have peers : (R.filter fun p => p.1 = q.1).Nonempty := ⟨q, by simp [filed]⟩
  obtain ⟨p, hp, least⟩ := Finset.exists_min_image _ Prod.snd peers
  obtain ⟨filed', same⟩ := Finset.mem_filter.mp hp
  have first : ∀ r ∈ R, r.1 = p.1 → p.2 ≤ r.2 := fun r hr hz =>
    least r (Finset.mem_filter.mpr ⟨hr, hz.trans same⟩)
  exact ⟨p, mem_leaders.mpr ⟨filed', first⟩, same, first q filed same.symm⟩

theorem classes_leaders : (leaders R).image Prod.fst = classes R := by
  ext z
  constructor
  · intro listed
    obtain ⟨p, hp, rfl⟩ := Finset.mem_image.mp listed
    exact Finset.mem_image_of_mem _ (leaders_subset hp)
  · intro listed
    obtain ⟨q, hq, rfl⟩ := Finset.mem_image.mp listed
    obtain ⟨p, hp, same, -⟩ := exists_leader hq
    exact Finset.mem_image.mpr ⟨p, hp, same⟩

theorem card_leaders : (leaders R).card = (classes R).card := by
  rw [← classes_leaders, Finset.card_image_of_injOn]
  intro p hp q hq same
  exact leader_unique hp hq same

theorem card_firsts_of_functional (functional : ∀ p ∈ R, ∀ q ∈ R, p.2 = q.2 → p = q) :
    (firsts R).card = (classes R).card := by
  rw [firsts, Finset.card_image_of_injOn, card_leaders]
  intro p hp q hq same
  exact functional p (leaders_subset hp) q (leaders_subset hq) same

theorem leaders_eq_of_subset (sub : R ⊆ S) (kept : leaders S ⊆ R) : leaders R = leaders S := by
  ext p
  constructor
  · intro hp
    obtain ⟨l, hl, same, -⟩ := exists_leader (sub (leaders_subset hp))
    have leads : l ∈ leaders R :=
      mem_leaders.mpr ⟨kept hl, fun q hq => (mem_leaders.mp hl).2 q (sub hq)⟩
    rwa [leader_unique hp leads same.symm]
  · intro hp
    exact mem_leaders.mpr ⟨kept hp, fun q hq => (mem_leaders.mp hp).2 q (sub hq)⟩

/-- Of the classes whose leaders differ, the one whose leader in `R` is least would have its
leader in `S` chosen for another class too. -/
theorem leaders_subset_of_firsts_eq (sub : R ⊆ S) (same : firsts R = firsts S)
    (apart : Set.InjOn Prod.snd (leaders S : Set (ζ × β))) : leaders R ⊆ leaders S := by
  by_contra differ
  obtain ⟨q, hq, missing⟩ := Finset.not_subset.mp differ
  have strays : ((leaders R).filter (· ∉ leaders S)).Nonempty := ⟨q, by simp [hq, missing]⟩
  obtain ⟨q, stray, least⟩ := Finset.exists_min_image _ Prod.snd strays
  obtain ⟨hq, missing⟩ := Finset.mem_filter.mp stray
  obtain ⟨p, hp, zone, below⟩ := exists_leader (sub (leaders_subset hq))
  have strictly : p.2 < q.2 := lt_of_le_of_ne below fun meet => missing (Prod.ext zone meet ▸ hp)
  obtain ⟨r, hr, meet⟩ : ∃ r ∈ leaders R, r.2 = p.2 := by
    have chosen : p.2 ∈ firsts R := same ▸ Finset.mem_image_of_mem _ hp
    simpa [firsts] using chosen
  have leads : r ∈ leaders S := by
    by_contra absent
    exact absurd (least r (by simp [hr, absent])) (by rw [meet]; exact not_le.mpr strictly)
  have again : r = p := apart leads hp meet
  subst again
  exact strictly.ne (congrArg Prod.snd (leader_unique hr hq zone))

/-- Both files choose the same elements, as many as the larger has classes, exactly when the
smaller keeps the leaders of the larger. -/
theorem firsts_agree_iff (sub : R ⊆ S) (functional : ∀ p ∈ R, ∀ q ∈ R, p.2 = q.2 → p = q) :
    (firsts R = firsts S ∧ (firsts R).card = (classes S).card) ↔ leaders S ⊆ R := by
  constructor
  · rintro ⟨same, count⟩
    have apart : Set.InjOn Prod.snd (leaders S : Set (ζ × β)) := by
      refine Finset.card_image_iff.mp ?_
      change (firsts S).card = _
      rw [← same, count, card_leaders]
    have covers : classes R = classes S := by
      refine Finset.eq_of_subset_of_card_le (Finset.image_subset_image sub) ?_
      rw [← count, card_firsts_of_functional functional]
    have included := leaders_subset_of_firsts_eq sub same apart
    have all : leaders R = leaders S := by
      refine Finset.eq_of_subset_of_card_le included ?_
      rw [card_leaders, card_leaders, covers]
    exact all ▸ leaders_subset
  · intro kept
    have all := leaders_eq_of_subset sub kept
    have same : firsts R = firsts S := congrArg (Finset.image Prod.snd) all
    refine ⟨same, ?_⟩
    rw [card_firsts_of_functional functional, ← card_leaders, all, card_leaders]

/-- The pairs of a list, class by class. -/
theorem mem_leaders_toFinset {α : Type*} {key : α → ζ} {f : α → β} {l : List α} {z : ζ} {n : β} :
    (z, n) ∈ leaders (l.map fun a => (key a, f a)).toFinset ↔
      ((l.filter (key · = z)).argmin f).map f = some n := by
  simp only [mem_leaders, List.mem_toFinset, List.mem_map, Prod.mk.injEq, Option.map_eq_some_iff]
  constructor
  · rintro ⟨⟨a, ha, rfl, rfl⟩, least⟩
    cases first : (l.filter (key · = key a)).argmin f with
    | none => simp [List.argmin_eq_none, List.filter_eq_nil_iff] at first; grind
    | some b =>
      have hb := List.mem_filter.mp (List.argmin_mem first)
      refine ⟨b, rfl, le_antisymm ?_ (least (key b, f b) ⟨b, hb.1, rfl⟩ (by simpa using hb.2))⟩
      exact List.le_of_mem_argmin (List.mem_filter.mpr ⟨ha, by simp⟩) first
  · rintro ⟨b, first, rfl⟩
    have hb := List.mem_filter.mp (List.argmin_mem first)
    refine ⟨⟨b, hb.1, by simpa using hb.2, rfl⟩, ?_⟩
    rintro _ ⟨a, ha, rfl⟩ same
    exact List.le_of_mem_argmin (List.mem_filter.mpr ⟨ha, by simpa using same⟩) first

end Kconmon.Lib
