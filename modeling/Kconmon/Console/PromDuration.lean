import Kconmon.Lib.Decimal

/-!
# Prometheus durations

`ParsePromDuration` reads a composite duration such as `1h30m` into nanoseconds, and
`FormatPromDuration` writes one with the largest unit that divides it. The parser detects an
overflow after the fact, from the wrapped product and from what is left below the largest
`int64`; for numbers of any number of digits this refuses exactly the sums that do not fit.
-/
namespace Kconmon.Console.PromDuration
open Lib

inductive DurationError where
  | empty
  | noNumber (rest : Bytes)
  | noUnit (digits : Bytes)
  | unknownUnit (unit : Bytes)
  | outOfOrder (unit : Bytes)
  | doesNotFit (digits unit : Bytes)
  | overflows
  | negative (ns : Int)
  | notWholeMilliseconds (ns : Int)
  deriving DecidableEq

def millisecond : Int := 1000000
def second : Int := 1000 * millisecond
def minute : Int := 60 * second
def hour : Int := 60 * minute
def day : Int := 24 * hour

/-- `promDurationUnits` -/
def promDurationUnits : List (Bytes × Int) :=
  [([letter 'y'], 365 * 24 * hour), ([letter 'w'], 7 * 24 * hour), ([letter 'd'], 24 * hour),
    ([letter 'h'], hour), ([letter 'm'], minute), ([letter 's'], second),
    ([letter 'm', letter 's'], millisecond)]

def isLower (b : UInt8) : Bool := decide (97 ≤ b.toNat ∧ b.toNat ≤ 122)

def maxInt64 : Int := 2 ^ 63 - 1

/-- `scanPromDurationComponent`: the digits, the unit and the rest of the text. -/
def scanPromDurationComponent (s : Bytes) : Except DurationError (Bytes × Bytes × Bytes) :=
  let digits := s.takeWhile isDigit
  if digits = [] then .error (.noNumber s)
  else
    let tail := s.dropWhile isDigit
    let unit := tail.takeWhile isLower
    if unit = [] then .error (.noUnit digits)
    else .ok (digits, unit, tail.dropWhile isLower)

/-- The body of the loop after the scan; the state is `total` and `next`. -/
def addComponent (total : Int) (next : Nat) (digits unit : Bytes) :
    Except DurationError (Int × Nat) :=
  match promDurationUnits.findIdx? (·.1 = unit) with
  | none => .error (.unknownUnit unit)
  | some idx =>
    if idx < next then .error (.outOfOrder unit)
    else
      match Decimal.readSigned 64 digits with
      | none => .error (.doesNotFit digits unit)
      | some value =>
        let size := (promDurationUnits[idx]?.map (·.2)).getD 0
        let part := wrap (value * size)
        if value ≠ 0 ∧ part.tdiv size ≠ value then .error .overflows
        else if total > wrap (maxInt64 - part) then .error .overflows
        else .ok (wrap (total + part), idx + 1)

variable {rest unit digits : Bytes}

theorem length_rest_lt {s : Bytes}
    (scanned : scanPromDurationComponent s = .ok (digits, unit, rest)) :
    rest.length < s.length := by
  have parts : s.takeWhile isDigit ++ s.dropWhile isDigit = s := List.takeWhile_append_dropWhile
  have shorter : ((s.dropWhile isDigit).dropWhile isLower).length ≤
      (s.dropWhile isDigit).length := (List.dropWhile_sublist _).length_le
  have lengths := congrArg List.length parts
  rw [List.length_append] at lengths
  unfold scanPromDurationComponent at scanned
  grind [List.length_pos_iff]

/-- The loop of `ParsePromDuration` over what is left of the text. -/
def parseLoop (total : Int) (next : Nat) (s : Bytes) : Except DurationError Int :=
  if s = [] then .ok total
  else
    match _scanned : scanPromDurationComponent s with
    | .error e => .error e
    | .ok (digits, unit, rest) =>
      match addComponent total next digits unit with
      | .error e => .error e
      | .ok (total, next) => parseLoop total next rest
  termination_by s.length
  decreasing_by exact length_rest_lt _scanned

def parsePromDuration (s : Bytes) : Except DurationError Int :=
  if s = [] then .error .empty
  else if s = [letter '0'] then .ok 0
  else parseLoop 0 0 s

/-- The units the formatter tries, largest first. -/
def formatUnits : List (Int × Bytes) :=
  [(day, [letter 'd']), (hour, [letter 'h']), (minute, [letter 'm']), (second, [letter 's']),
    (millisecond, [letter 'm', letter 's'])]

def formatPromDuration (ns : Int) : Except DurationError Bytes :=
  if ns < 0 then .error (.negative ns)
  else if ns = 0 then .ok [letter '0', letter 's']
  else
    match formatUnits.find? fun u => ns.tmod u.1 = 0 with
    | some u => .ok (Decimal.write (ns.tdiv u.1).toNat ++ u.2)
    | none => .error (.notWholeMilliseconds ns)

/-! ## The grammar -/

/-- A decimal number, leading zeros allowed, and one of the seven units. -/
structure Component where
  digits : Bytes
  number : Nat
  written : Decimal.read digits = some number
  unit : Fin promDurationUnits.length

namespace Component

def name (c : Component) : Bytes := promDurationUnits[c.unit].1

def size (c : Component) : Int := promDurationUnits[c.unit].2

def text (c : Component) : Bytes := c.digits ++ c.name

/-- The nanoseconds it stands for. -/
def value (c : Component) : Int := c.number * c.size

end Component

/-- The nanoseconds a list of components adds up to. -/
def sumOf : List Component → Int
  | [] => 0
  | c :: components => c.value + sumOf components

/-- The text is a list of components whose units strictly descend, the first at least `next`. -/
structure Reads (next : Nat) (s : Bytes) (components : List Component) : Prop where
  text : s = components.flatMap Component.text
  descending : components.Pairwise (·.unit < ·.unit)
  allowed : ∀ c ∈ components, next ≤ c.unit

/-! ## Scanning -/

theorem scan_append (number : digits ≠ []) (isNumber : ∀ b ∈ digits, isDigit b = true)
    (named : unit ≠ []) (isName : ∀ b ∈ unit, isLower b = true)
    (stop : ∀ b ∈ rest.head?, isDigit b = true) :
    scanPromDurationComponent (digits ++ (unit ++ rest)) = .ok (digits, unit, rest) := by
  have apart (b : UInt8) : isLower b = true → isDigit b = false := by
    unfold isLower isDigit
    grind
  obtain ⟨first, left⟩ := takeWhile_append_stop (unit ++ rest) isNumber (by
    cases unit <;> simp_all)
  obtain ⟨second, right⟩ := takeWhile_append_stop rest isName (by grind)
  simp [scanPromDurationComponent, first, left, second, right, number, named]

theorem of_scan {s : Bytes} (scanned : scanPromDurationComponent s = .ok (digits, unit, rest)) :
    s = digits ++ (unit ++ rest) ∧ digits ≠ [] ∧ ∀ b ∈ digits, isDigit b = true := by
  have outer : s.takeWhile isDigit ++ s.dropWhile isDigit = s := List.takeWhile_append_dropWhile
  have inner : (s.dropWhile isDigit).takeWhile isLower ++ (s.dropWhile isDigit).dropWhile isLower =
      s.dropWhile isDigit := List.takeWhile_append_dropWhile
  have digitsOnly : ∀ b ∈ s.takeWhile isDigit, isDigit b = true := fun b =>
    List.mem_takeWhile_imp
  unfold scanPromDurationComponent at scanned
  grind

/-! ## Adding one component -/

variable {n : Nat}

/-- The division test finds every product that does not fit. -/
theorem tdiv_wrap {size : Int} (positive : 0 < size) :
    ((n : Int) ≠ 0 ∧ (wrap (n * size)).tdiv size ≠ n) ↔ 2 ^ 63 ≤ n * size := by
  have nonneg : 0 ≤ (n : Int) * size := by positivity
  by_cases fits : (n : Int) * size < 2 ^ 63
  · rw [wrap_of_lt nonneg fits, Int.mul_tdiv_cancel _ positive.ne']
    omega
  · have low : wrap (n * size) < n * size := (wrap_lt _).trans_le (by omega)
    have some : (n : Int) ≠ 0 := by
      intro zero
      rw [zero] at fits
      omega
    have less : (wrap (n * size)).tdiv size < n := by
      rcases le_total 0 (wrap (n * size)) with up | down
      · rw [Int.tdiv_eq_ediv_of_nonneg up]
        exact Int.ediv_lt_of_lt_mul positive low
      · have := Int.tdiv_nonneg (Int.neg_nonneg_of_nonpos down) positive.le
        rw [Int.neg_tdiv] at this
        omega
    constructor
    · intro _
      omega
    · intro _
      exact ⟨some, less.ne⟩

theorem size_pos (c : Component) : millisecond ≤ c.size := by
  have every : ∀ i : Fin promDurationUnits.length, millisecond ≤ promDurationUnits[i].2 := by decide
  exact every c.unit

theorem value_nonneg (c : Component) : 0 ≤ c.value := by
  have := size_pos c
  unfold millisecond at this
  exact mul_nonneg (by omega) (by omega)

theorem findIdx?_name (i : Fin promDurationUnits.length) :
    promDurationUnits.findIdx? (·.1 = promDurationUnits[i].1) = some i.1 := by
  revert i
  decide

variable {next : Nat} {total : Int} {c : Component}

/-- A component whose unit is allowed is added exactly if the new total fits. -/
theorem addComponent_component (low : 0 ≤ total) (high : total < 2 ^ 63) (allowed : next ≤ c.unit) :
    addComponent total next c.digits c.name =
      if (c.number : Int) < 2 ^ 63 then
        if total + c.value < 2 ^ 63 then .ok (total + c.value, c.unit + 1) else .error .overflows
      else .error (.doesNotFit c.digits c.name) := by
  have positive : 0 < c.size := by
    have := size_pos c
    unfold millisecond at this
    omega
  have nonneg := value_nonneg c
  have sized : (promDurationUnits[c.unit.1]?.map (·.2)).getD 0 = c.size := by
    simp [Component.size]
  have valued : (c.number : Int) * c.size = c.value := rfl
  have product := @tdiv_wrap c.number c.size positive
  unfold addComponent Component.name
  rw [findIdx?_name, Decimal.readSigned_of_read c.written]
  simp only [Nat.not_lt.mpr allowed, if_false, sized]
  rw [valued] at product
  by_cases small : (c.number : Int) < 2 ^ 63
  · simp only [if_pos small, valued]
    by_cases single : c.value < 2 ^ 63
    · have room : wrap (maxInt64 - c.value) = maxInt64 - c.value :=
        wrap_of_lt (by unfold maxInt64; omega) (by unfold maxInt64; omega)
      rw [wrap_of_lt nonneg single] at product ⊢
      rw [if_neg (by rw [product]; omega), room]
      by_cases fits : total + c.value < 2 ^ 63
      · rw [if_neg (by unfold maxInt64; omega), if_pos fits, wrap_of_lt (by omega) fits]
      · rw [if_pos (by unfold maxInt64; omega), if_neg fits]
    · rw [if_pos (product.mpr (by omega)), if_neg (by omega)]
  · simp only [if_neg small]

/-- What is added is a component. -/
theorem of_addComponent {total' : Int} {next' : Nat} (number : digits ≠ [])
    (isNumber : ∀ b ∈ digits, isDigit b = true)
    (added : addComponent total next digits unit = .ok (total', next')) :
    ∃ c : Component, c.digits = digits ∧ c.name = unit ∧ next ≤ c.unit := by
  obtain ⟨n, written⟩ := Decimal.read_of_digits number isNumber
  unfold addComponent at added
  split at added
  · cases added
  · rename_i idx found
    obtain ⟨bound, named, -⟩ := List.findIdx?_eq_some_iff_getElem.mp found
    refine ⟨⟨digits, n, written, ⟨idx, bound⟩⟩, rfl, by simpa [Component.name] using named, ?_⟩
    by_contra early
    rw [if_pos (by simpa using early)] at added
    cases added

/-! ## The whole text -/

theorem name_lower (c : Component) : c.name ≠ [] ∧ ∀ b ∈ c.name, isLower b = true := by
  have every : ∀ i : Fin promDurationUnits.length, promDurationUnits[i].1 ≠ [] ∧
      ∀ b ∈ promDurationUnits[i].1, isLower b = true := by decide +kernel
  exact every c.unit

theorem head_flatMap_text (components : List Component) :
    ∀ b ∈ (components.flatMap Component.text).head?, isDigit b = true := by
  cases components with
  | nil => simp
  | cons c components =>
    obtain ⟨number, isNumber⟩ := Decimal.digits_of_read c.written
    obtain ⟨b, digits, shape⟩ := List.exists_cons_of_ne_nil number
    have first := isNumber b (by simp [shape])
    simp [Component.text, shape, first]

theorem scan_text (c : Component) (components : List Component) :
    scanPromDurationComponent ((c :: components).flatMap Component.text) =
      .ok (c.digits, c.name, components.flatMap Component.text) := by
  obtain ⟨number, isNumber⟩ := Decimal.digits_of_read c.written
  obtain ⟨named, isName⟩ := name_lower c
  rw [List.flatMap_cons, Component.text, List.append_assoc]
  exact scan_append number isNumber named isName (head_flatMap_text components)

theorem sumOf_nonneg (components : List Component) : 0 ≤ sumOf components := by
  induction components with
  | nil => exact le_rfl
  | cons c components ih => exact add_nonneg (value_nonneg c) ih

theorem reads_cons {components : List Component} (allowed : next ≤ c.unit)
    (read : Reads (c.unit + 1) rest components) :
    Reads next (c.digits ++ (c.name ++ rest)) (c :: components) := by
  obtain ⟨text, descending, later⟩ := read
  constructor
  · simp [text, Component.text]
  · exact List.pairwise_cons.mpr ⟨fun d listed => Fin.lt_def.mpr (later d listed), descending⟩
  · grind

theorem parseLoop_scan {s : Bytes} (some : s ≠ [])
    (scanned : scanPromDurationComponent s = .ok (digits, unit, rest)) : parseLoop total next s =
      (addComponent total next digits unit).bind fun state => parseLoop state.1 state.2 rest := by
  rw [parseLoop, if_neg some]
  split
  · simp_all
  · grind [Except.bind]

/-- The loop reads exactly the component lists whose sum fits, and adds the sum. -/
theorem parseLoop_iff (total : Int) (next : Nat) (s : Bytes) (low : 0 ≤ total)
    (high : total < 2 ^ 63) (n : Int) : parseLoop total next s = .ok n ↔
      ∃ components, Reads next s components ∧ total + sumOf components < 2 ^ 63 ∧
        n = total + sumOf components := by
  constructor
  · intro parsed
    fun_induction parseLoop total next s
    case case1 total next =>
      cases parsed
      exact ⟨[], ⟨rfl, by simp, by simp⟩, by simpa [sumOf] using high, by simp [sumOf]⟩
    case case2 => cases parsed
    case case3 => cases parsed
    case case4 total next s some digits unit rest scanned total' next' added ih =>
      obtain ⟨rfl, number, isNumber⟩ := of_scan scanned
      obtain ⟨c, rfl, rfl, allowed⟩ := of_addComponent number isNumber added
      rw [addComponent_component low high allowed] at added
      split_ifs at added with small fits
      cases added
      have nonneg := value_nonneg c
      obtain ⟨components, read, bound, rfl⟩ := ih (by omega) fits parsed
      refine ⟨c :: components, reads_cons allowed read, ?_, ?_⟩ <;> rw [sumOf] <;> omega
  · rintro ⟨components, ⟨rfl, descending, allowed⟩, fits, rfl⟩
    induction components generalizing total next with
    | nil => simp [parseLoop, sumOf]
    | cons c components ih =>
      rw [sumOf] at fits ⊢
      have rest := sumOf_nonneg components
      have nonneg := value_nonneg c
      have small : (c.number : Int) < 2 ^ 63 := by
        have := size_pos c
        unfold millisecond at this
        have : (c.number : Int) ≤ c.value := le_mul_of_one_le_right (by omega) (by omega)
        omega
      have some : (c :: components).flatMap Component.text ≠ [] := by
        simp [Component.text, (Decimal.digits_of_read c.written).1]
      have step := addComponent_component low high (allowed c (by simp))
      rw [if_pos small, if_pos (by omega)] at step
      rw [parseLoop_scan some (scan_text c components), step]
      refine (ih (total + c.value) (c.unit + 1) (by omega) (by omega)
        (List.pairwise_cons.mp descending).2 ?_ (by omega)).trans (by rw [add_assoc])
      exact fun d listed => (List.pairwise_cons.mp descending).1 d listed

/-! ## Exactness -/

theorem length_text (c : Component) : 2 ≤ c.text.length := by
  have digits := List.length_pos_iff.mpr (Decimal.digits_of_read c.written).1
  have name := List.length_pos_iff.mpr (name_lower c).1
  rw [Component.text, List.length_append]
  omega

theorem parsePromDuration_iff (s : Bytes) (n : Int) :
    parsePromDuration s = .ok n ↔ (s = [letter '0'] ∧ n = 0) ∨
      ∃ components, components ≠ [] ∧ Reads 0 s components ∧ sumOf components < 2 ^ 63 ∧
        n = sumOf components := by
  have long {components : List Component} (some : components ≠ []) (read : Reads 0 s components) :
      2 ≤ s.length := by
    obtain ⟨c, rest, rfl⟩ := List.exists_cons_of_ne_nil some
    have := length_text c
    rw [read.text, List.flatMap_cons, List.length_append]
    omega
  unfold parsePromDuration
  split_ifs with empty zero
  · subst empty
    grind
  · subst zero
    constructor
    · intro parsed
      cases parsed
      exact .inl ⟨rfl, rfl⟩
    · rintro (⟨-, rfl⟩ | ⟨components, some, read, -⟩)
      · rfl
      · have := long some read
        simp at this
  · rw [parseLoop_iff 0 0 s le_rfl (by decide)]
    constructor
    · rintro ⟨components, read, fits, rfl⟩
      refine .inr ⟨components, ?_, read, by omega, by omega⟩
      rintro rfl
      exact empty read.text
    · rintro (⟨rfl, -⟩ | ⟨components, -, read, fits, rfl⟩)
      · exact absurd rfl zero
      · exact ⟨components, read, by omega, by omega⟩

theorem parsePromDuration_component (fits : c.value < 2 ^ 63) :
    parsePromDuration c.text = .ok c.value := by
  rw [parsePromDuration_iff]
  have alone : sumOf [c] = c.value := add_zero _
  exact .inr ⟨[c], by simp, ⟨by simp, by simp, by simp⟩, by rwa [alone], alone.symm⟩

theorem formatUnits_listed : ∀ u ∈ formatUnits,
    0 < u.1 ∧ ∃ i : Fin promDurationUnits.length, promDurationUnits[i] = (u.2, u.1) := by
  decide

/-- Whole milliseconds are written and read back. -/
theorem parse_format {ns : Int} (low : 0 ≤ ns) (high : ns < 2 ^ 63) (whole : millisecond ∣ ns) :
    ∃ text, formatPromDuration ns = .ok text ∧ parsePromDuration text = .ok ns := by
  unfold formatPromDuration
  rw [if_neg (by omega)]
  split_ifs with zero
  · subst zero
    let c : Component := ⟨[letter '0'], 0, rfl, ⟨5, by decide⟩⟩
    have value : c.value = 0 := by simp [Component.value, c]
    have read := @parsePromDuration_component c (by rw [value]; decide)
    rw [value] at read
    exact ⟨c.text, rfl, read⟩
  · have found : (formatUnits.find? fun u => decide (ns.tmod u.1 = 0)).isSome := by
      rw [List.find?_isSome]
      exact ⟨(millisecond, [letter 'm', letter 's']), by simp [formatUnits],
        by simpa using Int.tmod_eq_zero_of_dvd whole⟩
    obtain ⟨u, first⟩ := Option.isSome_iff_exists.mp found
    obtain ⟨positive, i, listed⟩ := formatUnits_listed u (List.mem_of_find?_eq_some first)
    have divides : ns.tmod u.1 = 0 := by simpa using List.find?_some first
    let c : Component := ⟨_, (ns.tdiv u.1).toNat, Decimal.read_write _, i⟩
    have value : c.value = ns := by
      have quotient : 0 ≤ ns.tdiv u.1 := Int.tdiv_nonneg low positive.le
      simp only [Component.value, Component.size, c, listed, Int.toNat_of_nonneg quotient]
      exact Int.tdiv_mul_cancel (Int.dvd_of_tmod_eq_zero divides)
    have text : c.text = Decimal.write (ns.tdiv u.1).toNat ++ u.2 := by
      simp [Component.text, Component.name, c, listed]
    refine ⟨c.text, by rw [first, text], ?_⟩
    rw [parsePromDuration_component (by omega), value]

/-- Durations are read exactly, and every whole number of milliseconds survives the round trip. -/
theorem promDuration_exact :
    (∀ (s : Bytes) (n : Int), parsePromDuration s = .ok n ↔ (s = [letter '0'] ∧ n = 0) ∨
      ∃ components, components ≠ [] ∧ Reads 0 s components ∧ sumOf components < 2 ^ 63 ∧
        n = sumOf components) ∧ ∀ ns : Int, 0 ≤ ns → ns < 2 ^ 63 → 1000000 ∣ ns →
      ∃ text, formatPromDuration ns = .ok text ∧ parsePromDuration text = .ok ns :=
  ⟨parsePromDuration_iff, fun _ low high whole => parse_format low high whole⟩

/-- Ninety seconds are written and read back. -/
theorem promDuration_exact_ninety :
    ∃ text, formatPromDuration 90000000000 = .ok text ∧ parsePromDuration text = .ok 90000000000 :=
  promDuration_exact.2 90000000000 (by decide) (by decide) (by decide)

end Kconmon.Console.PromDuration
