import Mathlib.Data.List.Sort

/-!
# Paging by key

A listing is read page by page. Every page but the first is asked for by the last key of the
page before it, and goes on behind that key; a page that is not full is the last one. The listing
may change between two reads. Keys have ranks that never change, and every listing is in the
order of falling ranks.
-/
namespace Kconmon.Lib.Paging

variable {κ : Type*}

def Falling (rank : κ → Nat) (l : List κ) : Prop := l.Pairwise fun a b => rank b < rank a

variable {l : List κ} {k : κ}

/-- What a list holds that is not among its first elements is behind the last of those. -/
theorem Falling.mem_take_or {rank : κ → Nat} (falling : Falling rank l) {limit : Nat} {y : κ}
    (ends : (l.take limit).getLast? = some y) (listed : k ∈ l) :
    k ∈ l.take limit ∨ rank k < rank y := by
  have split : l.take limit ++ l.drop limit = l := List.take_append_drop limit l
  rw [Falling, ← split, List.pairwise_append] at falling
  rw [← split, List.mem_append] at listed
  exact listed.imp_right fun later => falling.2.2 y (List.mem_of_getLast? ends) k later

variable [DecidableEq κ]

/-- Keys that are listed newest first fall by their places in the history. -/
theorem falling_of_sublist {history : List κ} (distinct : history.Nodup)
    (part : l.Sublist history.reverse) : Falling history.idxOf l := by
  refine List.Pairwise.sublist part (List.pairwise_reverse.mpr ?_)
  refine List.pairwise_iff_getElem.mpr fun i j hi hj less => ?_
  simpa [distinct.idxOf_getElem] using less

/-- What is listed behind a key: nothing, for a key that is not listed. -/
@[grind] def after (x : κ) : List κ → List κ
  | [] => []
  | y :: l => if y = x then l else after x l

variable {x : κ}

theorem after_of_findIdx?_eq_none (absent : l.findIdx? (· = x) = none) : after x l = [] := by
  fun_induction after x l <;> grind

theorem after_of_findIdx?_eq_some {i : Nat} (found : l.findIdx? (· = x) = some i) :
    after x l = l.drop (i + 1) := by
  induction l generalizing i with
  | nil => simp at found
  | cons y l ih => cases later : l.findIdx? (· = x) <;> grind

/-- What is left to read behind the cursor. -/
def rest (cursor : Option κ) (l : List κ) : List κ := cursor.elim l (after · l)

@[simp] theorem rest_some (x : κ) (l : List κ) : rest (some x) l = after x l := rfl

/-- What one read returns: the cursor comes with the listing at that time. -/
def page (limit : Nat) (read : Option κ × List κ) : List κ := (rest read.1 read.2).take limit

/-- The reads of a walk that has come to its last page. -/
inductive Walk (limit : Nat) : Option κ → List (Option κ × List κ) → Prop
  | last {cursor : Option κ} {l : List κ} (short : (page limit (cursor, l)).length < limit) :
    Walk limit cursor [(cursor, l)]
  | more {cursor : Option κ} {l : List κ} {y : κ} {reads : List (Option κ × List κ)}
    (full : (page limit (cursor, l)).length = limit)
    (ends : (page limit (cursor, l)).getLast? = some y) (next : Walk limit (some y) reads) :
    Walk limit cursor ((cursor, l) :: reads)

/-! ## Ranks -/

section
variable (rank : κ → Nat)

/-- The key comes behind the cursor, wherever they are listed. -/
def Behind (cursor : Option κ) (k : κ) : Prop := ∀ x ∈ cursor, rank k < rank x

variable {rank}

theorem sublist_after (x : κ) (l : List κ) : (after x l).Sublist l := by
  fun_induction after x l <;> grind

theorem sublist_rest (cursor : Option κ) (l : List κ) : (rest cursor l).Sublist l := by
  cases cursor with
  | none => exact .refl l
  | some x => exact sublist_after x l

theorem Falling.behind_of_mem_rest (falling : Falling rank l) {cursor : Option κ}
    (listed : k ∈ rest cursor l) : Behind rank cursor k := by
  rintro x rfl
  simp only [rest_some] at listed
  unfold Falling at falling
  fun_induction after x l with
  | case1 => simp at listed
  | case2 l => exact (List.pairwise_cons.mp falling).1 k listed
  | case3 y l other ih => exact ih (List.pairwise_cons.mp falling).2 listed

theorem Falling.mem_after (falling : Falling rank l) (found : x ∈ l) (listed : k ∈ l)
    (behind : rank k < rank x) : k ∈ after x l := by
  unfold Falling at falling
  fun_induction after x l <;> grind [List.pairwise_cons]

/-- At this read the cursor is listed, unless nothing is listed that comes behind it. -/
def Current (rank : κ → Nat) (read : Option κ × List κ) : Prop :=
  ∀ x ∈ read.1, x ∈ read.2 ∨ ∀ k ∈ read.2, ¬ rank k < rank x

theorem Falling.mem_rest {cursor : Option κ} (falling : Falling rank l)
    (current : Current rank (cursor, l)) (listed : k ∈ l) (behind : Behind rank cursor k) :
    k ∈ rest cursor l := by
  cases cursor with
  | none => exact listed
  | some x =>
    have below : rank k < rank x := behind x rfl
    rcases current x rfl with found | nothing
    · exact falling.mem_after found listed below
    · exact absurd below (nothing k listed)

variable {limit : Nat} {cursor : Option κ} {reads : List (Option κ × List κ)}

/-- A walk returns keys in the order of falling ranks, all of them behind its cursor. -/
theorem Walk.falling (walk : Walk limit cursor reads)
    (falling : ∀ read ∈ reads, Falling rank read.2) : Falling rank (reads.flatMap (page limit)) ∧
      ∀ k ∈ reads.flatMap (page limit), Behind rank cursor k := by
  induction walk with
  | @last cursor l short =>
    have sorted : Falling rank l := (List.forall_mem_cons.mp falling).1
    have part : (page limit (cursor, l)).Sublist (rest cursor l) := List.take_sublist ..
    simp only [List.flatMap_cons, List.flatMap_nil, List.append_nil]
    exact ⟨sorted.sublist (part.trans (sublist_rest cursor l)),
      fun k hk => sorted.behind_of_mem_rest (part.subset hk)⟩
  | @more cursor l y reads full ends next ih =>
    obtain ⟨sorted, falling⟩ := List.forall_mem_cons.mp falling
    have part : (page limit (cursor, l)).Sublist (rest cursor l) := List.take_sublist ..
    have here : Falling rank (page limit (cursor, l)) :=
      sorted.sublist (part.trans (sublist_rest cursor l))
    obtain ⟨later, behind⟩ := ih falling
    have last : y ∈ page limit (cursor, l) := List.mem_of_getLast? ends
    have bound : ∀ k ∈ page limit (cursor, l), rank y ≤ rank k := by
      obtain ⟨front, split⟩ := List.getLast?_eq_some_iff.mp ends
      intro k hk
      rw [Falling, split, List.pairwise_append] at here
      rw [split, List.mem_append, List.mem_singleton] at hk
      rcases hk with hk | rfl
      · exact (here.2.2 k hk y (by simp)).le
      · exact le_rfl
    simp only [List.flatMap_cons, List.mem_append]
    constructor
    · refine List.pairwise_append.mpr ⟨here, later, fun a ha b hb => ?_⟩
      exact lt_of_lt_of_le (behind b hb y rfl) (bound a ha)
    · rintro k (hk | hk) x hx
      · exact sorted.behind_of_mem_rest (part.subset hk) x hx
      · have above : rank y < rank x := sorted.behind_of_mem_rest (part.subset last) x hx
        exact (behind k hk y rfl).trans above

/-- A walk whose reads are all current returns every key that each of them lists. -/
theorem Walk.complete (walk : Walk limit cursor reads)
    (falling : ∀ read ∈ reads, Falling rank read.2) (current : ∀ read ∈ reads, Current rank read)
    (steady : ∀ read ∈ reads, k ∈ read.2) (behind : Behind rank cursor k) :
    k ∈ reads.flatMap (page limit) := by
  induction walk with
  | @last cursor l short =>
    have left := Falling.mem_rest (List.forall_mem_cons.mp falling).1
      (List.forall_mem_cons.mp current).1 (List.forall_mem_cons.mp steady).1 behind
    have whole : page limit (cursor, l) = rest cursor l := by
      simp only [page, List.length_take] at short ⊢
      exact List.take_of_length_le (by omega)
    simpa [whole] using left
  | @more cursor l y reads full ends next ih =>
    obtain ⟨sorted, falling⟩ := List.forall_mem_cons.mp falling
    obtain ⟨cited, current⟩ := List.forall_mem_cons.mp current
    obtain ⟨listed, steady⟩ := List.forall_mem_cons.mp steady
    have left := Falling.mem_rest sorted cited listed behind
    rw [List.flatMap_cons, List.mem_append]
    have remaining : Falling rank (rest cursor l) := sorted.sublist (sublist_rest cursor l)
    refine (remaining.mem_take_or ends left).imp_right fun below => ?_
    exact ih falling current steady (by simpa [Behind] using below)

end

end Kconmon.Lib.Paging
