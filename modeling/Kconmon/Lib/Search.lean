import Mathlib.Data.List.DropRight

/-!
# Searching a text

The first and the last position at which a pattern starts, and the two ends of a text without the
characters to strip.
-/
namespace Kconmon.Lib

variable {α : Type*} [DecidableEq α]

def indexOf (pattern : List α) : List α → Option Nat
  | [] => if pattern = [] then some 0 else none
  | x :: xs =>
    if pattern.isPrefixOf (x :: xs) then some 0 else (indexOf pattern xs).map (· + 1)

def lastIndexOf (pattern : List α) : List α → Option Nat
  | [] => if pattern = [] then some 0 else none
  | x :: xs =>
    match lastIndexOf pattern xs with
    | some i => some (i + 1)
    | none => if pattern.isPrefixOf (x :: xs) then some 0 else none

variable {s pattern : List α} {i : Nat}

theorem cut_of_indexOf (found : indexOf pattern s = some i) :
    ∃ a b, s = a ++ pattern ++ b ∧ a.length = i := by
  induction s generalizing i with
  | nil => exact ⟨[], [], by grind [indexOf]⟩
  | cons x xs ih =>
    rw [indexOf] at found
    split at found
    case isTrue start =>
      obtain ⟨b, whole⟩ := List.isPrefixOf_iff_prefix.mp start
      exact ⟨[], b, by simp [whole], by grind⟩
    case isFalse =>
      obtain ⟨j, later, rfl⟩ := Option.map_eq_some_iff.mp found
      obtain ⟨a, b, rfl, rfl⟩ := ih later
      exact ⟨x :: a, b, by simp, rfl⟩

theorem cut_of_lastIndexOf (found : lastIndexOf pattern s = some i) :
    ∃ a b, s = a ++ pattern ++ b ∧ a.length = i := by
  induction s generalizing i with
  | nil => exact ⟨[], [], by grind [lastIndexOf]⟩
  | cons x xs ih =>
    rw [lastIndexOf] at found
    cases later : lastIndexOf pattern xs with
    | some j =>
      rw [later] at found
      obtain ⟨a, b, rfl, rfl⟩ := ih later
      exact ⟨x :: a, b, by simp, by simpa using found⟩
    | none =>
      rw [later] at found
      dsimp only at found
      split at found
      case isTrue start =>
        obtain ⟨b, whole⟩ := List.isPrefixOf_iff_prefix.mp start
        exact ⟨[], b, by simp [whole], by grind⟩
      case isFalse => cases found

/-- A pattern that occurs has a last occurrence, not before the first. -/
theorem le_lastIndexOf (found : indexOf pattern s = some i) :
    ∃ j, lastIndexOf pattern s = some j ∧ i ≤ j := by
  induction s generalizing i with
  | nil => exact ⟨i, by simpa [indexOf, lastIndexOf] using found, Nat.le_refl i⟩
  | cons x xs ih =>
    rw [indexOf] at found
    rw [lastIndexOf]
    split at found
    case isTrue start =>
      cases lastIndexOf pattern xs <;> grind
    case isFalse =>
      obtain ⟨j, later, rfl⟩ := Option.map_eq_some_iff.mp found
      obtain ⟨k, last, le⟩ := ih later
      exact ⟨k + 1, by rw [last], by omega⟩

theorem lastIndexOf_none_of_indexOf_none (absent : indexOf pattern s = none) :
    lastIndexOf pattern s = none := by
  induction s with
  | nil => simpa [indexOf, lastIndexOf] using absent
  | cons x xs ih =>
    rw [indexOf] at absent
    rw [lastIndexOf]
    split at absent
    case isTrue => cases absent
    case isFalse start => simp [ih (Option.map_eq_none_iff.mp absent), start]

/-! ## Single characters -/

theorem indexOf_singleton_cons (c x : α) (xs : List α) :
    indexOf [c] (x :: xs) = if c = x then some 0 else (indexOf [c] xs).map (· + 1) := by
  simp [indexOf, List.isPrefixOf]

variable {c : α}

theorem indexOf_eq_none : indexOf [c] s = none ↔ c ∉ s := by
  induction s with
  | nil => simp [indexOf]
  | cons x xs ih => by_cases same : c = x <;> simp [indexOf_singleton_cons, same, ih]

/-- The first occurrence cuts a text in two. -/
theorem indexOf_eq_some :
    indexOf [c] s = some i ↔ ∃ a b, s = a ++ c :: b ∧ c ∉ a ∧ a.length = i := by
  constructor
  · intro found
    induction s generalizing i with
    | nil => simp [indexOf] at found
    | cons x xs ih =>
      rw [indexOf_singleton_cons] at found
      split at found
      case isTrue same => exact ⟨[], xs, by simp [same], by simp, by simpa using found⟩
      case isFalse differs =>
        obtain ⟨j, later, rfl⟩ := Option.map_eq_some_iff.mp found
        obtain ⟨a, b, rfl, first, rfl⟩ := ih later
        exact ⟨x :: a, b, rfl, by simp [differs, first], rfl⟩
  · rintro ⟨a, b, rfl, first, rfl⟩
    induction a with
    | nil => simp [indexOf_singleton_cons]
    | cons x a ih =>
      rw [List.mem_cons, not_or] at first
      simp [indexOf_singleton_cons, first.1, ih first.2]

/-! ## Fields -/

theorem splitOn_cons_cases (sep x : α) (s : List α) : ∃ l ls, s.splitOn sep = l :: ls ∧
      (x :: s).splitOn sep = if x = sep then [] :: l :: ls else (x :: l) :: ls := by
  obtain ⟨l, ls, cut⟩ := List.exists_cons_of_ne_nil (List.splitOn_ne_nil sep s)
  exact ⟨l, ls, cut, by simp [List.splitOn_cons_eq_if_modifyHead, cut]⟩

variable {sep : α}

theorem exists_mem_splitOn (mem : c ∈ s) (other : c ≠ sep) : ∃ l ∈ s.splitOn sep, c ∈ l := by
  induction s with
  | nil => cases mem
  | cons x s ih =>
    obtain ⟨l, ls, cut, cut'⟩ := splitOn_cons_cases sep x s
    rw [cut, List.exists_mem_cons_iff] at ih
    by_cases same : x = sep
    · rw [cut', if_pos same, List.exists_mem_cons_iff, List.exists_mem_cons_iff]
      grind
    · rw [cut', if_neg same, List.exists_mem_cons_iff]
      grind

theorem of_mem_splitOn {l : List α} (listed : l ∈ s.splitOn sep) (mem : c ∈ l) :
    c ∈ s ∧ c ≠ sep := by
  induction s generalizing l with
  | nil =>
    rw [List.splitOn_nil, List.mem_singleton] at listed
    simp [listed] at mem
  | cons x s ih =>
    obtain ⟨first, ls, cut, cut'⟩ := splitOn_cons_cases sep x s
    rw [cut'] at listed
    rw [cut] at ih
    grind

theorem splitOn_append_cons (sep : α) (s t : List α) :
    (s ++ sep :: t).splitOn sep = s.splitOn sep ++ t.splitOn sep :=
  List.splitOnP_append_cons s t (beq_self_eq_true sep)

/-- A text is no longer than its fields and the separators between them. -/
theorem length_le_of_splitOn {l : List α} {ls : List (List α)} {k : Nat}
    (cut : s.splitOn sep = l :: ls) (short : ∀ m ∈ ls, m.length ≤ k) :
    s.length ≤ l.length + ls.length * (k + 1) := by
  induction s generalizing l ls with
  | nil => simp
  | cons x s ih =>
    obtain ⟨l', ls', cut', both⟩ := splitOn_cons_cases sep x s
    rw [both] at cut
    split at cut
    · obtain ⟨rfl, rfl⟩ := List.cons.inj cut
      rw [List.forall_mem_cons] at short
      have rest := ih cut' short.2
      simp only [List.length_cons, List.length_nil, Nat.add_mul]
      omega
    · obtain ⟨rfl, rfl⟩ := List.cons.inj cut
      have rest := ih cut' short
      simp only [List.length_cons]
      omega

/-! ## Stripping -/

section Strip
variable {β : Type*} {p : β → Bool}

/-- A text without the characters to strip at its two ends. -/
def strip (p : β → Bool) (s : List β) : List β := ((s.dropWhile p).reverse.dropWhile p).reverse

theorem exists_rdropWhile (p : β → Bool) (s : List β) :
    ∃ r, s = s.rdropWhile p ++ r ∧ ∀ c ∈ r, p c = true := by
  have whole := congrArg List.reverse (s.reverse.takeWhile_append_dropWhile (p := p))
  rw [List.reverse_append, List.reverse_reverse] at whole
  exact ⟨_, whole.symm, fun c mem => List.mem_takeWhile_imp (List.mem_reverse.mp mem)⟩

theorem exists_strip (p : β → Bool) (s : List β) : ∃ l r, s = l ++ (strip p s ++ r) ∧
    (∀ c ∈ l, p c = true) ∧ ∀ c ∈ r, p c = true := by
  obtain ⟨r, back, after⟩ := exists_rdropWhile p (s.dropWhile p)
  refine ⟨s.takeWhile p, r, ?_, fun c mem => List.mem_takeWhile_imp mem, after⟩
  exact List.takeWhile_append_dropWhile.symm.trans (congrArg _ back)

end Strip

end Kconmon.Lib
