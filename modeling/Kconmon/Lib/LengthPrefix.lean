import Mathlib.Data.List.Basic

/-!
# Records of length-prefixed fields

A field is written as the numeral of its size and then the field, and the fields of a record follow
one another. Nothing marks where a numeral ends, so a field is read back where it does not begin
with a digit, and a field that may begin with one can be taken for a longer one. `write_eq_iff` says
which lists of records are written alike.
-/
namespace Kconmon.Lib

/-- How sizes are measured and written. -/
structure Numbering (α : Type*) where
  numeral : ℕ → List α
  size : List α → ℕ
  numeral_injective : Function.Injective numeral
  /-- The numeral of zero begins no other. -/
  numeral_zero : ∀ {n d}, numeral n = numeral 0 ++ d → d = []
  size_append : ∀ x y, size (x ++ y) = size x + size y
  eq_nil_of_size : ∀ {x}, size x = 0 → x = []

namespace Numbering

variable {α : Type*} (nb : Numbering α)

def IsDigit (a : α) : Prop := ∃ n, a ∈ nb.numeral n

def Begins (x : List α) : Prop := ∃ a ∈ x.head?, ¬nb.IsDigit a

def field (x : List α) : List α := nb.numeral (nb.size x) ++ x

/-- Name and value of each record, in order. -/
def write (records : List (List α × List α)) : List α :=
  records.flatMap fun r => nb.field r.1 ++ nb.field r.2

/-- The digits `d` at the front of `x ++ r` continue the numeral of `x`, and what results is the
numeral of the `y` that comes next. -/
def Overruns (x r y s : List α) : Prop :=
  ∃ d ≠ [], nb.numeral (nb.size y) = nb.numeral (nb.size x) ++ d ∧ x ++ r = d ++ (y ++ s)

/-- Where the two lists first differ they have the same name, and the first one's value, with all
that is written after it, reads as the rest of a longer numeral and the second one's value. -/
def Imitates (ps qs : List (List α × List α)) : Prop :=
  ∃ common name v w ps' qs', ps = common ++ (name, v) :: ps' ∧ qs = common ++ (name, w) :: qs' ∧
    nb.Overruns v (nb.write ps') w (nb.write qs')

variable {nb} {x y r s : List α} {ps qs : List (List α × List α)}

@[simp] theorem write_nil : nb.write [] = [] := rfl

@[simp] theorem write_cons (p : List α × List α) (ps : List (List α × List α)) :
    nb.write (p :: ps) = nb.field p.1 ++ (nb.field p.2 ++ nb.write ps) := by
  simp [write]

theorem write_append : nb.write (ps ++ qs) = nb.write ps ++ nb.write qs := by
  simp [write]

theorem Begins.ne_nil (begins : nb.Begins x) : x ≠ [] := by
  rintro rfl
  simp [Begins] at begins

theorem IsDigit.of_mem {n : ℕ} {d t : List α} (numeral : nb.numeral n = t ++ d) {a : α}
    (mem : a ∈ d) : nb.IsDigit a := ⟨n, numeral ▸ List.mem_append_right t mem⟩

/-- No field with a first symbol that is no digit is overrun. -/
theorem Begins.not_overruns (begins : nb.Begins x) : ¬nb.Overruns x r y s := by
  rintro ⟨d, nonempty, numeral, text⟩
  obtain ⟨a, first, nondigit⟩ := begins
  obtain ⟨b, d', rfl⟩ := List.exists_cons_of_ne_nil nonempty
  have same : a = b := by
    have heads := congrArg List.head? text
    rw [List.head?_append, Option.mem_def.mp first] at heads
    simpa using heads
  exact nondigit (.of_mem numeral (by simp [same]))

theorem Overruns.ne (overruns : nb.Overruns x r y s) : x ≠ y := by
  rintro rfl
  obtain ⟨d, nonempty, numeral, -⟩ := overruns
  exact nonempty (List.append_right_eq_self.mp numeral.symm)

/-- Two texts of one size at the front of equal texts are equal. -/
theorem append_cancel (size : nb.size x = nb.size y) (text : x ++ r = y ++ s) : x = y ∧ r = s := by
  rcases List.append_eq_append_iff.mp text with ⟨d, rfl, rfl⟩ | ⟨d, rfl, rfl⟩
  all_goals
    have none : nb.size d = 0 := by
      have := nb.size_append
      grind
    simp [nb.eq_nil_of_size none]

theorem field_append_eq_iff : nb.field x ++ r = nb.field y ++ s ↔
    (x = y ∧ r = s) ∨ nb.Overruns x r y s ∨ nb.Overruns y s x r := by
  constructor
  · intro text
    simp only [field, List.append_assoc] at text
    by_cases size : nb.size x = nb.size y
    · rw [size] at text
      exact .inl (append_cancel size (List.append_cancel_left text))
    have numerals : nb.numeral (nb.size x) ≠ nb.numeral (nb.size y) :=
      fun same => size (nb.numeral_injective same)
    right
    rcases List.append_eq_append_iff.mp text with ⟨d, longer, rest⟩ | ⟨d, longer, rest⟩
    · exact .inl ⟨d, by rintro rfl; simp_all, longer, rest⟩
    · exact .inr ⟨d, by rintro rfl; simp_all, longer, rest⟩
  · rintro (⟨rfl, rfl⟩ | ⟨d, -, numeral, text⟩ | ⟨d, -, numeral, text⟩)
    · rfl
    · simp only [field, numeral, text, List.append_assoc]
    · simp only [field, numeral, text, List.append_assoc]

/-- A field that does not begin with a digit is read back. -/
theorem Begins.field_append_eq_iff (hx : nb.Begins x) (hy : nb.Begins y) :
    nb.field x ++ r = nb.field y ++ s ↔ x = y ∧ r = s := by
  rw [Numbering.field_append_eq_iff]
  have := hx.not_overruns (r := r) (y := y) (s := s)
  have := hy.not_overruns (r := s) (y := x) (s := r)
  tauto

theorem Imitates.cons (p : List α × List α) (imitates : nb.Imitates ps qs) :
    nb.Imitates (p :: ps) (p :: qs) := by
  obtain ⟨common, name, v, w, ps', qs', rfl, rfl, overruns⟩ := imitates
  exact ⟨p :: common, name, v, w, ps', qs', rfl, rfl, overruns⟩

theorem Imitates.write_eq (imitates : nb.Imitates ps qs) : nb.write ps = nb.write qs := by
  obtain ⟨common, name, v, w, ps', qs', rfl, rfl, overruns⟩ := imitates
  rw [write_append, write_append, write_cons, write_cons,
    field_append_eq_iff.mpr (.inr (.inl overruns))]

theorem Imitates.ne (imitates : nb.Imitates ps qs) : ps ≠ qs := by
  obtain ⟨common, name, v, w, ps', qs', rfl, rfl, overruns⟩ := imitates
  intro same
  have := overruns.ne
  simp_all

/-- Lists of records whose names do not begin with a digit are written alike when they are equal or
one imitates the other. -/
theorem write_eq_iff (names : ∀ p ∈ ps, nb.Begins p.1) (names' : ∀ q ∈ qs, nb.Begins q.1) :
    nb.write ps = nb.write qs ↔ ps = qs ∨ nb.Imitates ps qs ∨ nb.Imitates qs ps := by
  constructor
  · intro same
    induction ps generalizing qs with
    | nil =>
      cases qs with
      | nil => exact .inl rfl
      | cons q qs =>
        have := (names' q (by simp)).ne_nil
        simp [field, this] at same
    | cons p ps ih =>
      cases qs with
      | nil =>
        have := (names p (by simp)).ne_nil
        simp [field, this] at same
      | cons q qs =>
        obtain ⟨name, v⟩ := p
        obtain ⟨name', w⟩ := q
        rw [write_cons, write_cons,
          (names _ (by simp)).field_append_eq_iff (names' _ (by simp))] at same
        obtain ⟨rfl, values⟩ : name = name' ∧ _ := same
        rcases field_append_eq_iff.mp values with ⟨rfl, rest⟩ | overruns | overruns
        · have tails := ih (fun p mem => names p (by simp [mem]))
            (fun q mem => names' q (by simp [mem])) rest
          rcases tails with rfl | imitates | imitates
          · exact .inl rfl
          · exact .inr (.inl (imitates.cons _))
          · exact .inr (.inr (imitates.cons _))
        · exact .inr (.inl ⟨[], name, v, w, ps, qs, rfl, rfl, overruns⟩)
        · exact .inr (.inr ⟨[], name, w, v, qs, ps, rfl, rfl, overruns⟩)
  · rintro (rfl | imitates | imitates)
    · rfl
    · exact imitates.write_eq
    · exact imitates.write_eq.symm

end Numbering

end Kconmon.Lib
