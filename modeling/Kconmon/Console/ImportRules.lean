import Kconmon.Console.Rbac
import Mathlib.Data.List.DropRight
import Mathlib.Data.List.Infix

/-!
# Checks of configuration rows

`strings.TrimSpace` as the checks of addresses and names use it, and the check and the clamp of a
schedule's timing, which every route that writes a schedule shares.
-/
namespace Kconmon.Console.Import
open Lib

/-! ## Text -/

/-- `strings.TrimSpace` -/
def trimSpace (v : String) : String :=
  String.ofList (((v.toList.dropWhile isSpace).reverse.dropWhile isSpace).reverse)

theorem trimSpace_trimSpace (v : String) : trimSpace (trimSpace v) = trimSpace v := by
  let left := v.toList.dropWhile isSpace
  let trimmed := left.rdropWhile isSpace
  have first : trimmed.dropWhile isSpace = trimmed := by
    cases eq : trimmed with
    | nil => rfl
    | cons c rest =>
      obtain ⟨spaces, whole⟩ : trimmed <+: left := List.rdropWhile_prefix isSpace _
      have head := List.head?_dropWhile_not isSpace v.toList
      have starts : left.head? = some c := by rw [← whole, eq]; rfl
      refine List.dropWhile_cons_of_neg ?_
      simpa [left, starts] using head
  have last : trimmed.rdropWhile isSpace = trimmed := List.rdropWhile_idempotent ..
  change String.ofList (((String.ofList trimmed).toList.dropWhile _).rdropWhile _) = _
  rw [String.toList_ofList, first, last]
  rfl

/-! ## Schedules -/

/-- The fields of a schedule that its checks read; times are instants. -/
structure ScheduleInput where
  definitionID : String
  kind : String
  intervalNs : Int := 0
  runAt : Option Int := none
  enabled : Bool := false
  deriving DecidableEq

def scheduleKinds : List String := ["once", "interval", "continuous"]

/-- What the check of a schedule asks beyond the id of its definition. -/
def ScheduleInput.wellTimed (row : ScheduleInput) : Bool := scheduleKinds.contains row.kind &&
    if row.kind = "once" then row.runAt.isSome && row.intervalNs = 0
    else if row.kind = "interval" then 0 < row.intervalNs && row.runAt.isNone
    else row.runAt.isNone && row.intervalNs = 0

/-- Ten seconds. -/
def minScheduleInterval : Int := 10000000000

def clampScheduleInterval (kind : String) (ns : Int) : Int :=
  if kind = "interval" ∧ 0 < ns ∧ ns < minScheduleInterval then minScheduleInterval else ns

end Kconmon.Console.Import
