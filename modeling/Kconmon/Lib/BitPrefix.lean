import Mathlib.Data.Nat.Notation

/-!
# Leading bits

Words that agree on their first bits: how a shift of their difference decides it, and how clearing
the other bits leaves it alone.
-/
namespace Kconmon.Lib

variable {w n : ℕ} {a b c : BitVec w}

/-- The first `n` bits are equal. -/
def AgreeOn (n : ℕ) (a b : BitVec w) : Prop := ∀ i < n, a.getMsbD i = b.getMsbD i

theorem AgreeOn.refl (a : BitVec w) : AgreeOn n a a := fun _ _ => rfl

theorem AgreeOn.symm (agree : AgreeOn n a b) : AgreeOn n b a := fun i lt => (agree i lt).symm

theorem AgreeOn.trans (agree : AgreeOn n a b) (agree' : AgreeOn n b c) : AgreeOn n a c :=
  fun i lt => (agree i lt).trans (agree' i lt)

def keepFirst (n : ℕ) (a : BitVec w) : BitVec w := a >>> (w - n) <<< (w - n)

theorem agreeOn_keepFirst (le : n ≤ w) (a : BitVec w) : AgreeOn n (keepFirst n a) a := by
  intro i lt
  simp only [keepFirst, BitVec.getMsbD_shiftLeft, BitVec.getMsbD_ushiftRight]
  have inside : i + (w - n) < w := by omega
  simp [inside]

theorem ushiftRight_xor_eq_zero_iff (le : n ≤ w) : (a ^^^ b) >>> (w - n) = 0#w ↔ AgreeOn n a b := by
  constructor
  · intro zero i lt
    have bit := congrArg (BitVec.getMsbD · (i + (w - n))) zero
    have inside : i + (w - n) < w := by omega
    simpa [inside] using bit
  · intro agree
    apply BitVec.eq_of_getMsbD_eq
    intro i lt
    simp only [BitVec.getMsbD_ushiftRight, BitVec.getMsbD_xor, BitVec.getMsbD_zero]
    by_cases shifted : i < w - n
    · simp [shifted]
    · simp [shifted, agree (i - (w - n)) (by omega)]

end Kconmon.Lib
