import Mathlib.Init

/-!
# A cell whose value lapses

One key of a shared store. A value counts as absent once its time has passed, whether
or not it was removed, so a conditional write tests for a live value.
-/
namespace Kconmon.Lib.Ttl

structure Entry (ν : Type*) where
  val : ν
  expiresAt : Nat
  deriving DecidableEq

abbrev Cell (ν : Type*) := Option (Entry ν)

variable {ν : Type*}

def Entry.expired (e : Entry ν) (now : Nat) : Bool := e.expiresAt < now

namespace Cell

def get (cell : Cell ν) (now : Nat) : Option ν :=
  match cell with
  | none => none
  | some e => if e.expired now then none else some e.val

/-- Writes when the key's presence is the wanted one, and says whether it did. -/
def setIf (cell : Cell ν) (now : Nat) (wantPresent : Bool) (val : ν) (ttl : Nat) : Cell ν × Bool :=
  if (cell.get now).isSome = wantPresent then (some ⟨val, now + ttl⟩, true) else (cell, false)

def setNX (cell : Cell ν) (now : Nat) (val : ν) (ttl : Nat) : Cell ν × Bool :=
  cell.setIf now false val ttl

def setXX (cell : Cell ν) (now : Nat) (val : ν) (ttl : Nat) : Cell ν × Bool :=
  cell.setIf now true val ttl

def deleteIfEqual [DecidableEq ν] (cell : Cell ν) (now : Nat) (val : ν) : Cell ν :=
  if cell.get now = some val then none else cell

theorem get_eq_some {cell : Cell ν} {now : Nat} {val : ν} :
    cell.get now = some val ↔ ∃ expiresAt, cell = some ⟨val, expiresAt⟩ ∧ now ≤ expiresAt := by
  cases cell with
  | none => simp [get]
  | some e =>
    simp only [get, Entry.expired, decide_eq_true_eq, Option.ite_none_left_eq_some,
      Option.some.injEq]
    constructor
    · rintro ⟨live, rfl⟩
      exact ⟨e.expiresAt, rfl, by omega⟩
    · rintro ⟨t, rfl, live⟩
      exact ⟨Nat.not_lt.mpr live, rfl⟩

theorem setNX_eq {cell cell' : Cell ν} {now ttl : Nat} {val : ν}
    (done : cell.setNX now val ttl = (cell', true)) :
    cell.get now = none ∧ cell' = some ⟨val, now + ttl⟩ := by
  unfold setNX setIf at done
  split at done
  next free =>
    cases done
    exact ⟨by simpa using free, rfl⟩
  next => simp at done

theorem setXX_eq {cell cell' : Cell ν} {now ttl : Nat} {val : ν} {stored : Bool}
    (done : cell.setXX now val ttl = (cell', stored)) :
    stored = true ∧ cell ≠ none ∧ cell' = some ⟨val, now + ttl⟩ ∨ stored = false ∧ cell' = cell :=
      by
  unfold setXX setIf at done
  split at done
  next present =>
    cases done
    refine .inl ⟨rfl, ?_, rfl⟩
    rintro rfl
    simp [get] at present
  next =>
    cases done
    exact .inr ⟨rfl, rfl⟩

end Cell

end Kconmon.Lib.Ttl
