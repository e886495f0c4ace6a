import Kconmon.Lib.Text
import Mathlib.Data.Nat.Digits.Lemmas

/-!
# Decimal numerals as bytes

Numbers written without leading zeros, and read from any non-empty run of digits after
an optional sign. What is written is read back; what is read need not have been written.
-/
namespace Kconmon.Lib.Decimal

def digit (d : Nat) : UInt8 := .ofNat (48 + d)

def digitValue (b : UInt8) : Option Nat :=
  if 48 ≤ b.toNat ∧ b.toNat ≤ 57 then some (b.toNat - 48) else none

def write (n : Nat) : List UInt8 :=
  if n = 0 then [digit 0] else (Nat.digits 10 n).reverse.map digit

def read (text : List UInt8) : Option Nat :=
  if text = [] then none
  else (text.mapM digitValue).map fun digits => digits.foldl (fun n d => n * 10 + d) 0

def minus : UInt8 := 45
def plus : UInt8 := 43

/-- The number as a machine integer of `bits` bits, if it is one. -/
def readSigned (bits : Nat) (text : List UInt8) : Option Int :=
  let value :=
    match text with
    | [] => none
    | b :: rest =>
      if b = minus then (read rest).map fun n => -(n : Int)
      else if b = plus then (read rest).map Int.ofNat
      else (read text).map Int.ofNat
  value.filter fun n => -2 ^ (bits - 1) ≤ n ∧ n < 2 ^ (bits - 1)

theorem toNat_digit {d : Nat} (small : d < 10) : (digit d).toNat = 48 + d := by
  rw [digit, UInt8.toNat_ofNat']
  omega

theorem digitValue_digit {d : Nat} (small : d < 10) : digitValue (digit d) = some d := by
  rw [digitValue, toNat_digit small]
  simp
  omega

/-- Every byte of a numeral is a digit. -/
theorem exists_digit_of_mem_write {n : Nat} {b : UInt8} (mem : b ∈ write n) :
    ∃ d < 10, b = digit d := by
  unfold write at mem
  split at mem
  · exact ⟨0, by decide, List.mem_singleton.mp mem⟩
  · obtain ⟨d, listed, rfl⟩ := List.mem_map.mp mem
    exact ⟨d, Nat.digits_lt_base (by decide) (List.mem_reverse.mp listed), rfl⟩

theorem notMem_write {b : UInt8} (outside : ¬ (48 ≤ b.toNat ∧ b.toNat ≤ 57)) (n : Nat) :
    b ∉ write n := by
  intro mem
  obtain ⟨d, small, rfl⟩ := exists_digit_of_mem_write mem
  rw [toNat_digit small] at outside
  omega

theorem write_ne_nil (n : Nat) : write n ≠ [] := by
  unfold write
  split
  · exact List.cons_ne_nil _ _
  · rename_i positive
    simpa [Nat.digits_eq_nil_iff_eq_zero] using positive

theorem mapM_digitValue {digits : List Nat} (small : ∀ d ∈ digits, d < 10) :
    (digits.map digit).mapM digitValue = some digits := by
  induction digits with
  | nil => rfl
  | cons d digits ih =>
    obtain ⟨head, tail⟩ := List.forall_mem_cons.mp small
    simp [List.mapM_cons, digitValue_digit head, ih tail]

theorem foldl_reverse_digits (n : Nat) :
    (Nat.digits 10 n).reverse.foldl (fun n d => n * 10 + d) 0 = n := by
  rw [List.foldl_reverse]
  have value := Nat.ofDigits_eq_foldr 10 (Nat.digits 10 n)
  rw [Nat.ofDigits_digits] at value
  refine Eq.trans ?_ value.symm
  refine congrArg (fun f => List.foldr f 0 (Nat.digits 10 n)) ?_
  funext d acc
  simp
  ring

theorem read_write (n : Nat) : read (write n) = some n := by
  rw [read, if_neg (write_ne_nil n)]
  unfold write
  split
  · rename_i zero
    subst zero
    rfl
  · rw [mapM_digitValue fun d listed => Nat.digits_lt_base (by decide) (List.mem_reverse.mp listed)]
    rw [Option.map_some, foldl_reverse_digits]

/-- A numeral has no sign: it is its number, if that is a machine integer. -/
theorem readSigned_write (bits n : Nat) : readSigned bits (write n) =
    (some (n : Int)).filter fun n => -2 ^ (bits - 1) ≤ n ∧ n < 2 ^ (bits - 1) := by
  obtain ⟨b, rest, shape⟩ := List.exists_cons_of_ne_nil (write_ne_nil n)
  have first : b ∈ write n := by simp [shape]
  have notMinus : b ≠ minus := by
    rintro rfl
    exact notMem_write (by decide) n first
  have notPlus : b ≠ plus := by
    rintro rfl
    exact notMem_write (by decide) n first
  have value := read_write n
  rw [shape] at value ⊢
  simp [readSigned, notMinus, notPlus, value]

theorem readSigned_write_of_lt {bits n : Nat} (fits : n < 2 ^ (bits - 1)) :
    readSigned bits (write n) = some (n : Int) := by
  have small : (n : Int) < 2 ^ (bits - 1) := by exact_mod_cast fits
  have positive : -2 ^ (bits - 1) ≤ (n : Int) := by
    have : (0 : Int) ≤ 2 ^ (bits - 1) := by positivity
    omega
  rw [readSigned_write]
  simp [Option.filter, small, positive]

theorem eq_of_readSigned_write {bits n : Nat} {m : Int}
    (held : readSigned bits (write n) = some m) : m = n := by
  rw [readSigned_write] at held
  exact (Option.some.inj (Option.filter_eq_some_iff.mp held).1).symm

/-! ## Runs of digits -/

variable {digits : Bytes} {n : Nat}

theorem mapM_digitValue_of_digits (isNumber : ∀ b ∈ digits, isDigit b = true) :
    ∃ values, digits.mapM digitValue = some values := by
  induction digits with
  | nil => exact ⟨[], rfl⟩
  | cons b digits ih =>
    obtain ⟨values, tail⟩ := ih fun b listed => isNumber b (by simp [listed])
    have head : 48 ≤ b.toNat ∧ b.toNat ≤ 57 := by simpa [isDigit] using isNumber b (by simp)
    exact ⟨(b.toNat - 48) :: values, by simp [List.mapM_cons, digitValue, head, tail]⟩

theorem read_of_digits (number : digits ≠ []) (isNumber : ∀ b ∈ digits, isDigit b = true) :
    ∃ n, read digits = some n := by
  obtain ⟨values, mapped⟩ := mapM_digitValue_of_digits isNumber
  exact ⟨_, by rw [read, if_neg number, mapped, Option.map_some]⟩

theorem digits_of_mapM {values : List Nat} (mapped : digits.mapM digitValue = some values) :
    ∀ b ∈ digits, isDigit b = true := by
  induction digits generalizing values with
  | nil => simp
  | cons b digits ih =>
    simp only [List.mapM_cons, Option.pure_def, Option.bind_eq_bind,
      Option.bind_eq_some_iff] at mapped
    obtain ⟨v, head, rest, tail, -⟩ := mapped
    have first : isDigit b = true := by
      unfold digitValue at head
      grind [isDigit]
    grind

theorem digits_of_read (written : read digits = some n) :
    digits ≠ [] ∧ ∀ b ∈ digits, isDigit b = true := by
  unfold read at written
  split at written
  · cases written
  · rename_i number
    obtain ⟨values, mapped, -⟩ := Option.map_eq_some_iff.mp written
    exact ⟨number, digits_of_mapM mapped⟩

/-- `ParseInt` of a run of digits fails only if the number is too large. -/
theorem readSigned_of_read (written : read digits = some n) :
    readSigned 64 digits = if (n : Int) < 2 ^ 63 then some (n : Int) else none := by
  obtain ⟨number, isNumber⟩ := digits_of_read written
  cases digits with
  | nil => exact absurd rfl number
  | cons b digits =>
    have first := isNumber b (by simp)
    have notMinus : b ≠ minus := by rintro rfl; cases first
    have notPlus : b ≠ plus := by rintro rfl; cases first
    simp [readSigned, notMinus, notPlus, written, Option.filter]

end Kconmon.Lib.Decimal
