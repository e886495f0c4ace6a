import Mathlib.Algebra.Group.Int.Defs
import Mathlib.Data.List.TakeWhile
import Mathlib.Data.String.Basic

/-!
# Texts, bytes and machine integers

`equalFold` is simple case folding, exact whenever one of the two strings is
plain ASCII: besides the capital letters only the long s and the Kelvin sign
fold to an ASCII letter.
-/
namespace Kconmon.Lib

abbrev Bytes := List UInt8

/-- Valid UTF-8 text, as its characters. -/
abbrev Text := List Char

def foldRune (c : Char) : Char :=
  if 'A' ≤ c ∧ c ≤ 'Z' then Char.ofNat (c.toNat + 32)
  else if c = Char.ofNat 0x17F then 's'
  else if c = Char.ofNat 0x212A then 'k'
  else c

def equalFold (s t : String) : Bool := s.toList.map foldRune == t.toList.map foldRune

/-- `unicode.IsSpace` -/
def isSpace (c : Char) : Bool :=
  [0x09, 0x0A, 0x0B, 0x0C, 0x0D, 0x20, 0x85, 0xA0, 0x1680, 0x2028, 0x2029, 0x202F, 0x205F,
    0x3000].contains c.toNat || 0x2000 ≤ c.toNat && c.toNat ≤ 0x200A

/-- The text of a UUID as it is written. -/
def isUUID (s : Text) : Bool := (s.splitOn '-').map List.length = [8, 4, 4, 4, 12] &&
    s.all fun c => c = '-' || c.isDigit || 'a' ≤ c && c ≤ 'f'

/-- The byte of an ASCII character. -/
def letter (c : Char) : UInt8 := .ofNat c.toNat

def isDigit (b : UInt8) : Bool := decide (48 ≤ b.toNat ∧ b.toNat ≤ 57)

theorem takeWhile_append_stop {α : Type*} {p : α → Bool} {run : List α} (rest : List α)
    (all : ∀ b ∈ run, p b = true) (stop : ∀ b ∈ rest.head?, p b = false) :
    (run ++ rest).takeWhile p = run ∧ (run ++ rest).dropWhile p = rest := by
  induction run with
  | nil => cases rest <;> simp_all
  | cons b run ih => simp_all

/-! ## Integers of 64 bits -/

/-- The value of an `int` expression. -/
def wrap (n : Int) : Int := n.bmod (2 ^ 64)

variable {n : Int}

theorem wrap_of_lt (positive : 0 ≤ n) (small : n < 2 ^ 63) : wrap n = n := by
  unfold wrap
  rw [Int.bmod_def]
  omega

theorem wrap_of_le (large : 2 ^ 63 ≤ n) (bound : n < 2 ^ 64) : wrap n < 0 := by
  unfold wrap
  rw [Int.bmod_def]
  omega

theorem wrap_lt (n : Int) : wrap n < 2 ^ 63 := by
  unfold wrap
  rw [Int.bmod_def]
  omega

end Kconmon.Lib
