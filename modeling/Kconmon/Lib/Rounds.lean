import Mathlib.Data.List.TakeWhile
import Mathlib.Logic.Function.Iterate

/-!
# Admitting items in rounds

Items stand in a fixed order and some of them are good. A round looks at the first `limit` items
that were not admitted before, and admits the good ones among them. An item that is not good is
never admitted and is looked at again in every round. So a good item gets in, if ever, exactly when
fewer than `limit` items that are not good stand before it.
-/
namespace Kconmon.Lib.Rounds

variable {α : Type*} [DecidableEq α] (items : List α) (good : α → Bool) (limit : Nat)

/-- What a round adds to the items admitted so far. -/
def round (admitted : α → Bool) (x : α) : Bool :=
  admitted x || (good x && decide (x ∈ (items.filter (!admitted ·)).take limit))

/-- The items that are not good and stand before `x`. -/
def blockers (x : α) : List α := (items.takeWhile (· ≠ x)).filter (!good ·)

/-- No item that could still be admitted has too many others before it. -/
def Open (admitted : α → Bool) : Prop :=
  ∀ x ∈ items, good x = true → admitted x = false → (blockers items good x).length < limit

def missing (admitted : α → Bool) : List α := items.filter fun x => good x && !admitted x

variable {items good limit} {admitted : α → Bool} {x : α}

theorem round_of_admitted (old : admitted x = true) : round items good limit admitted x = true := by
  simp [round, old]

/-- A round looks at nothing but the items. -/
theorem round_congr {admitted' : α → Bool} (same : ∀ y ∈ items, admitted' y = admitted y)
    (listed : x ∈ items) : round items good limit admitted' x = round items good limit admitted x :=
      by
  have left : items.filter (!admitted' ·) = items.filter (!admitted ·) :=
    List.filter_congr fun y mem => by rw [same y mem]
  rw [round, round, left, same x listed]

theorem good_of_round (sound : ∀ y, admitted y = true → good y = true)
    (new : round items good limit admitted x = true) : good x = true := by
  simp only [round, Bool.or_eq_true, Bool.and_eq_true] at new
  exact new.elim (sound x) fun both => both.1

/-- An item with too many blockers is not reached. -/
theorem round_of_blocked (sound : ∀ y, admitted y = true → good y = true)
    (blocked : limit ≤ (blockers items good x).length) (out : admitted x = false) :
    round items good limit admitted x = false := by
  obtain ⟨rest, split⟩ : ∃ rest, items = items.takeWhile (· ≠ x) ++ rest :=
    ⟨_, (List.takeWhile_append_dropWhile).symm⟩
  have before : x ∉ items.takeWhile (· ≠ x) := by
    intro mem
    simpa using List.mem_takeWhile_imp mem
  have many : limit ≤ ((items.takeWhile (· ≠ x)).filter (!admitted ·)).length := by
    refine Nat.le_trans blocked ?_
    rw [blockers, ← List.countP_eq_length_filter, ← List.countP_eq_length_filter]
    refine List.countP_mono_left fun y _ bad => ?_
    cases old : admitted y with
    | false => rfl
    | true => simp [sound y old] at bad
  have unreached : x ∉ (items.filter (!admitted ·)).take limit := by
    rw [split, List.filter_append, List.take_append_of_le_length many]
    exact fun mem => before (List.mem_filter.mp (List.mem_of_mem_take mem)).1
  simp [round, out, unreached]

/-- The first good item that is out gets in. -/
theorem exists_round_of_open (free : Open items good limit admitted)
    (left : missing items good admitted ≠ []) :
    ∃ x ∈ items, good x = true ∧ admitted x = false ∧ round items good limit admitted x = true := by
  let wanted (x : α) : Bool := good x && !admitted x
  obtain ⟨x, rest, drop⟩ : ∃ x rest, items.dropWhile (!wanted ·) = x :: rest := by
    refine List.exists_cons_of_ne_nil fun none => left ?_
    refine List.filter_eq_nil_iff.mpr fun y listed => ?_
    have unwanted := List.dropWhile_eq_nil_iff.mp none y listed
    simpa only [wanted, Bool.not_eq_true', Bool.not_eq_true] using unwanted
  have split : items = items.takeWhile (!wanted ·) ++ x :: rest := by
    rw [← drop, List.takeWhile_append_dropWhile]
  have unwanted : ∀ y ∈ items.takeWhile (!wanted ·), wanted y = false := by
    intro y mem
    simpa using List.mem_takeWhile_imp mem
  have wants : wanted x = true := by
    have head := List.head_dropWhile_not (!wanted ·) (l := items) (by simp [drop])
    simpa [drop] using head
  generalize items.takeWhile (!wanted ·) = earlier at split unwanted
  obtain ⟨isGood, out⟩ : good x = true ∧ admitted x = false := by simpa [wanted] using wants
  have listed : x ∈ items := by simp [split]
  refine ⟨x, listed, isGood, out, ?_⟩
  have apart : ∀ y ∈ earlier, y ≠ x := by
    rintro y mem rfl
    simp [unwanted y mem] at wants
  have before : items.takeWhile (· ≠ x) = earlier := by
    rw [split, List.takeWhile_append_of_pos (by simpa using apart)]
    simp
  have few : (earlier.filter (!admitted ·)).length < limit := by
    have blocked := free x listed isGood out
    rw [blockers, before] at blocked
    refine Nat.lt_of_le_of_lt (List.Sublist.length_le ?_) blocked
    have bad : earlier.filter (!admitted ·) = (earlier.filter (!good ·)).filter (!admitted ·) := by
      rw [List.filter_filter]
      refine List.filter_congr fun y mem => ?_
      have := unwanted y mem
      simp only [wanted] at this
      cases isGood : good y <;> cases isIn : admitted y <;> simp_all
    rw [bad]
    exact List.filter_sublist
  have reached : x ∈ (items.filter (!admitted ·)).take limit := by
    rw [split, List.filter_append, List.filter_cons_of_pos (by simp [out]),
      List.take_append, List.mem_append]
    right
    rw [show limit - (earlier.filter (!admitted ·)).length =
      (limit - (earlier.filter (!admitted ·)).length - 1) + 1 by omega, List.take_succ_cons]
    exact List.mem_cons_self
  simp [round, isGood, reached]

/-! ## Whole runs -/

theorem out_of_round (out : round items good limit admitted x = false) : admitted x = false := by
  cases old : admitted x with
  | false => rfl
  | true => simp [round_of_admitted old] at out

theorem Open.round (free : Open items good limit admitted) :
    Open items good limit (round items good limit admitted) :=
  fun x listed isGood out => free x listed isGood (out_of_round out)

theorem missing_round : missing items good (round items good limit admitted) =
    (missing items good admitted).filter (!round items good limit admitted ·) := by
  rw [missing, missing, List.filter_filter]
  refine List.filter_congr fun y _ => ?_
  cases new : round items good limit admitted y with
  | false => simp [out_of_round new]
  | true => simp

theorem length_missing_round (free : Open items good limit admitted)
    (left : missing items good admitted ≠ []) :
    (missing items good (round items good limit admitted)).length <
      (missing items good admitted).length := by
  obtain ⟨x, listed, isGood, out, new⟩ := exists_round_of_open free left
  rw [missing_round, List.length_filter_lt_length_iff_exists]
  exact ⟨x, List.mem_filter.mpr ⟨listed, by simp [isGood, out]⟩, by simp [new]⟩

theorem good_of_rounds (sound : ∀ y, admitted y = true → good y = true) {n : Nat}
    (new : (round items good limit)^[n] admitted x = true) : good x = true := by
  induction n generalizing admitted with
  | zero => exact sound x new
  | succ n ih =>
    rw [Function.iterate_succ_apply] at new
    exact ih (fun y => good_of_round sound) new

/-- Without blocked items, as many rounds as there are items missing admit them all. -/
theorem admitted_of_open {n : Nat} (free : Open items good limit admitted)
    (enough : (missing items good admitted).length ≤ n) (listed : x ∈ items)
    (isGood : good x = true) : (round items good limit)^[n] admitted x = true := by
  induction n generalizing admitted with
  | zero =>
    have none : missing items good admitted = [] :=
      List.length_eq_zero_iff.mp (Nat.le_zero.mp enough)
    have unwanted := List.filter_eq_nil_iff.mp none x listed
    simpa [isGood] using unwanted
  | succ n ih =>
    rw [Function.iterate_succ_apply]
    refine ih free.round ?_
    by_cases none : missing items good admitted = []
    · simp [missing_round, none]
    · have fewer := length_missing_round free none
      omega

theorem blocked_forever (sound : ∀ y, admitted y = true → good y = true)
    (blocked : limit ≤ (blockers items good x).length) (out : admitted x = false) (n : Nat) :
    (round items good limit)^[n] admitted x = false := by
  induction n generalizing admitted with
  | zero => exact out
  | succ n ih =>
    rw [Function.iterate_succ_apply]
    exact ih (fun y => good_of_round sound) (round_of_blocked sound blocked out)

end Kconmon.Lib.Rounds
