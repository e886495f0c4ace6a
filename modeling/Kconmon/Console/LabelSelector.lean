import Kconmon.Lib.Text

/-!
# Label selectors in rendered expressions

A rendered expression holds the scope of its rule as a PromQL label selector, and the operator
types the values. `escapeLabelValue` rewrites backslashes, double quotes and newlines in one pass.
The reader below is the grammar of a selector; it reads every rendered selector back, up to
its closing brace and no further, so no value can end its string or add a matcher.
-/
namespace Kconmon.Console.LabelSelector
open Lib

structure Matcher where
  name : Text
  value : Text
  deriving DecidableEq

/-! ## Rendering -/

/-- What `labelValueEscaper` writes for a character. -/
def escapeChar (c : Char) : Text :=
  if c = '\\' then ['\\', '\\']
  else if c = '"' then ['\\', '"']
  else if c = '\n' then ['\\', 'n']
  else [c]

def escapeLabelValue (v : Text) : Text := v.flatMap escapeChar

/-- One pass of the loop of `selector`, without the comma. -/
def entry (m : Matcher) : Text := m.name ++ ('=' :: '"' :: escapeLabelValue m.value) ++ ['"']

/-- The loop of `selector`; `first` is `i == 0`. -/
def entries : Bool → List Matcher → Text
  | _, [] => []
  | first, m :: matchers => (if first then [] else [',']) ++ entry m ++ entries false matchers

def selector (matchers : List Matcher) : Text :=
  if matchers.length = 0 then []
  else '\x7b' :: entries true matchers ++ ['\x7d']

/-- A scope that passed `checkSchema`: string values under the two known keys. -/
structure Scope where
  sourceNode : Option Text
  destNode : Option Text
  deriving DecidableEq

/-- `optionalStringParam`; the error is the name of the parameter that must not be empty. -/
def optionalStringParam (name : String) : Option Text → Except String (Option Text)
  | none => .ok none
  | some v => if v.all isSpace then .error name else .ok (some v)

/-- `scopeMatchers`: the source first, then the destination. -/
def scopeMatchers (scope : Scope) : Except String (List Matcher) := do
  let source ← optionalStringParam "sourceNode" scope.sourceNode
  let dest ← optionalStringParam "destNode" scope.destNode
  return (source.map (Matcher.mk "source_node".toList)).toList ++
    (dest.map (Matcher.mk "destination_node".toList)).toList

/-! ## The grammar of a selector -/

def isNameStart (c : Char) : Bool := c.isAlpha || c = '_'

def isNameChar (c : Char) : Bool := c.isAlphanum || c = '_'

/-- A label name. -/
def IsLabelName (name : Text) : Prop :=
  name.head?.any isNameStart = true ∧ ∀ c ∈ name, isNameChar c = true

/-- The escapes of one character. -/
def simpleEscape (c : Char) : Option Char :=
  if c = 'a' then some '\x07' else if c = 'b' then some '\x08' else if c = 'f' then some '\x0c'
  else if c = 'n' then some '\n' else if c = 'r' then some '\r' else if c = 't' then some '\t'
  else if c = 'v' then some '\x0b' else if c = '\\' then some '\\' else if c = '"' then some '"'
  else none

def digitOf (c : Char) : Nat :=
  if c.isDigit then c.toNat - 48 else if 'a' ≤ c then c.toNat - 87 else c.toNat - 55

/-- The character that digits of an escape spell; a single byte has to be ASCII. -/
def numeral (base bound : Nat) (digits : Text) : Option Char :=
  let n := digits.foldl (fun n c => n * base + digitOf c) 0
  if digits.all (fun c => (c.isDigit || ('a' ≤ c && c ≤ 'f') || ('A' ≤ c && c ≤ 'F')) &&
      digitOf c < base) ∧ n < bound ∧ n.isValidChar then some (Char.ofNat n) else none

/-- The octal, byte and code point escapes, with the number of characters after the first. -/
def numericEscape (c : Char) (rest : Text) : Option (Char × Nat) :=
  if c = 'x' then
    if rest.length < 2 then none else (numeral 16 128 (rest.take 2)).map (·, 2)
  else if c = 'u' then
    if rest.length < 4 then none else (numeral 16 0x110000 (rest.take 4)).map (·, 4)
  else if c = 'U' then
    if rest.length < 8 then none else (numeral 16 0x110000 (rest.take 8)).map (·, 8)
  else
    if rest.length < 2 then none else (numeral 8 128 (c :: rest.take 2)).map (·, 2)

/-- A double-quoted string, after its opening quote: the value and what follows the string. -/
def readString (s : Text) : Option (Text × Text) :=
  match s with
  | [] => none
  | c :: rest =>
    if c = '"' then some ([], rest)
    else if c = '\n' then none
    else if c = '\\' then
      match rest with
      | [] => none
      | e :: tail =>
        match simpleEscape e with
        | some d => (readString tail).map fun r => (d :: r.1, r.2)
        | none =>
          match numericEscape e tail with
          | some (d, k) => (readString (tail.drop k)).map fun r => (d :: r.1, r.2)
          | none => none
    else (readString rest).map fun r => (c :: r.1, r.2)
  termination_by s.length

inductive MatchOp where
  | equal
  | notEqual
  | regexp
  | notRegexp
  deriving DecidableEq

def readOp : Text → Option (MatchOp × Text)
  | '=' :: '~' :: rest => some (.regexp, rest)
  | '=' :: rest => some (.equal, rest)
  | '!' :: '=' :: rest => some (.notEqual, rest)
  | '!' :: '~' :: rest => some (.notRegexp, rest)
  | _ => none

/-- Between two tokens there may be blanks. -/
def skip (s : Text) : Text := s.dropWhile fun c => c = ' ' || c = '\t' || c = '\n' || c = '\r'

/-- A name, an operator and a string. -/
def readMatcher (s : Text) : Option ((MatchOp × Matcher) × Text) :=
  let name := s.takeWhile isNameChar
  if name.head?.any isNameStart then
    match readOp (skip (s.dropWhile isNameChar)) with
    | none => none
    | some (op, rest) =>
      match skip rest with
      | '"' :: rest => (readString rest).map fun r => ((op, ⟨name, r.1⟩), r.2)
      | _ => none
  else none

/-- The matchers after an opening brace, up to the closing one; a last comma is allowed. -/
def readMatchers : Nat → Text → Option (List (MatchOp × Matcher) × Text)
  | 0, _ => none
  | fuel + 1, s =>
    match skip s with
    | '\x7d' :: rest => some ([], rest)
    | s =>
      match readMatcher s with
      | none => none
      | some (m, rest) =>
        match skip rest with
        | '\x7d' :: rest => some ([m], rest)
        | ',' :: rest => (readMatchers fuel rest).map fun r => (m :: r.1, r.2)
        | _ => none

/-- An optional selector: its matchers and the text after it. -/
def readSelector (s : Text) : Option (List (MatchOp × Matcher) × Text) :=
  match s with
  | '\x7b' :: rest => readMatchers (rest.length + 1) rest
  | s => some ([], s)

/-! ## Reading back -/

/-- The escapes are undone one by one, up to the closing quote. -/
theorem readString_escape (v rest : Text) :
    readString (escapeLabelValue v ++ '"' :: rest) = some (v, rest) := by
  induction v with
  | nil =>
    rw [readString.eq_def]
    simp [escapeLabelValue]
  | cons c v ih =>
    rw [escapeLabelValue] at ih
    rw [escapeLabelValue, List.flatMap_cons, List.append_assoc]
    by_cases backslash : c = '\\'
    · subst backslash
      simp [escapeChar, readString, simpleEscape, ih]
    by_cases quote : c = '"'
    · subst quote
      simp [escapeChar, readString, simpleEscape, ih]
    by_cases newline : c = '\n'
    · subst newline
      simp [escapeChar, readString, simpleEscape, ih]
    · rw [escapeChar, if_neg backslash, if_neg quote, if_neg newline, readString.eq_def]
      simp [backslash, quote, newline, ih]

theorem name_stops {name : Text} (valid : IsLabelName name) (rest : Text) :
    (name ++ '=' :: rest).takeWhile isNameChar = name ∧
      (name ++ '=' :: rest).dropWhile isNameChar = '=' :: rest := by
  have stop : isNameChar '=' = false := by decide
  rw [List.takeWhile_append_of_pos valid.2, List.dropWhile_append_of_pos valid.2]
  simp [stop]

variable {m : Matcher}

section
variable (valid : IsLabelName m.name)
include valid

theorem readMatcher_entry (rest : Text) :
    readMatcher (entry m ++ rest) = some ((.equal, m), rest) := by
  have shape : entry m ++ rest =
      m.name ++ '=' :: '"' :: (escapeLabelValue m.value ++ '"' :: rest) := by
    simp [entry]
  obtain ⟨name, left⟩ := name_stops valid ('"' :: (escapeLabelValue m.value ++ '"' :: rest))
  rw [shape, readMatcher, name, left, if_pos valid.1]
  simp [skip, readOp, readString_escape]

theorem entry_start (rest : Text) :
    ∃ c tail, entry m ++ rest = c :: tail ∧ isNameStart c = true := by
  obtain ⟨start, -⟩ := valid
  cases named : m.name with
  | nil => simp [named] at start
  | cons c name =>
    refine ⟨c, name ++ ('=' :: '"' :: escapeLabelValue m.value) ++ ['"'] ++ rest, ?_, ?_⟩
    · simp [entry, named]
    · simpa [named] using start

theorem skip_entry (rest : Text) : skip (entry m ++ rest) = entry m ++ rest := by
  obtain ⟨c, tail, shape, start⟩ := entry_start valid rest
  have visible : c ≠ ' ' ∧ c ≠ '\t' ∧ c ≠ '\n' ∧ c ≠ '\r' := by
    refine ⟨?_, ?_, ?_, ?_⟩
    all_goals
      rintro rfl
      exact absurd start (by decide)
  simp [shape, skip, visible]

theorem entry_ne_closed (rest tail : Text) : entry m ++ rest ≠ '\x7d' :: tail := by
  obtain ⟨c, text, shape, start⟩ := entry_start valid rest
  rw [shape]
  rintro ⟨⟩
  exact absurd start (by decide)

theorem readMatchers_last (fuel : Nat) (tail : Text) :
    readMatchers (fuel + 1) (entry m ++ '\x7d' :: tail) = some ([(.equal, m)], tail) := by
  rw [readMatchers, skip_entry valid]
  split
  · rename_i closed
    exact absurd closed (entry_ne_closed valid _ _)
  · simp [readMatcher_entry valid, skip]

theorem readMatchers_comma (fuel : Nat) (rest : Text) :
    readMatchers (fuel + 1) (entry m ++ ',' :: rest) =
      (readMatchers fuel rest).map fun r => ((.equal, m) :: r.1, r.2) := by
  rw [readMatchers, skip_entry valid]
  split
  · rename_i closed
    exact absurd closed (entry_ne_closed valid _ _)
  · simp [readMatcher_entry valid, skip]

end

variable {matchers : List Matcher}

theorem entries_false (some : matchers ≠ []) :
    entries false matchers = ',' :: entries true matchers := by
  cases matchers with
  | nil => exact absurd rfl some
  | cons m matchers => simp [entries]

theorem readMatchers_entries (some : matchers ≠ []) (valid : ∀ m ∈ matchers, IsLabelName m.name)
    {fuel : Nat} (enough : matchers.length ≤ fuel) (tail : Text) :
    readMatchers fuel (entries true matchers ++ '\x7d' :: tail) =
      .some (matchers.map (MatchOp.equal, ·), tail) := by
  induction matchers generalizing fuel with
  | nil => exact absurd rfl some
  | cons m matchers ih =>
    obtain ⟨fuel, rfl⟩ : ∃ n, fuel = n + 1 := ⟨fuel - 1, by simp at enough; omega⟩
    rw [entries, if_pos rfl, List.nil_append, List.append_assoc]
    by_cases last : matchers = []
    · simp [last, entries, readMatchers_last (valid m (by simp))]
    · have rest := ih last (fun m listed => valid m (by simp [listed])) (by simpa using enough)
      rw [entries_false last, List.cons_append, readMatchers_comma (valid m (by simp)), rest]
      rfl

theorem length_entries (first : Bool) (matchers : List Matcher) :
    matchers.length ≤ (entries first matchers).length := by
  induction matchers generalizing first with
  | nil => simp
  | cons m matchers ih =>
    have := ih false
    simp only [entries, entry, List.length_append, List.length_cons]
    omega

/-- A rendered selector is read back whatever follows it, unless that is itself a selector. -/
theorem readSelector_append (valid : ∀ m ∈ matchers, IsLabelName m.name) {tail : Text}
    (apart : tail.head? ≠ some '\x7b') :
    readSelector (selector matchers ++ tail) = some (matchers.map (MatchOp.equal, ·), tail) := by
  by_cases none : matchers = []
  · subst none
    cases tail with
    | nil => rfl
    | cons c tail =>
      have other : c ≠ '\x7b' := by simpa using apart
      simp [selector, readSelector, other]
  · have shape : selector matchers ++ tail =
        '\x7b' :: (entries true matchers ++ '\x7d' :: tail) := by
      simp [selector, none]
    have enough := length_entries true matchers
    rw [shape, readSelector, readMatchers_entries none valid]
    simp only [List.length_append]
    omega

theorem selector_injective {others : List Matcher} (valid : ∀ m ∈ matchers, IsLabelName m.name)
    (valid' : ∀ m ∈ others, IsLabelName m.name) (same : selector matchers = selector others) :
    matchers = others := by
  have read := @readSelector_append _ valid [] (by simp)
  rw [same, readSelector_append valid' (by simp)] at read
  simp only [Option.some.injEq, Prod.mk.injEq, and_true] at read
  have values := congrArg (List.map Prod.snd) read
  rw [List.map_map, List.map_map] at values
  exact ((List.map_id others).symm.trans (values.trans (List.map_id matchers))).symm

theorem optionalStringParam_eq {name : String} {given read : Option Text}
    (passed : optionalStringParam name given = .ok read) : read = given := by
  cases given <;> grind [optionalStringParam]

variable {scope : Scope}

/-- The matchers of a scope are its values under two label names. -/
theorem scopeMatchers_eq (made : scopeMatchers scope = .ok matchers) :
    matchers = (scope.sourceNode.map (Matcher.mk "source_node".toList)).toList ++
      (scope.destNode.map (Matcher.mk "destination_node".toList)).toList := by
  unfold scopeMatchers at made
  cases source : optionalStringParam "sourceNode" scope.sourceNode with
  | error e => simp [source, bind, Except.bind] at made
  | ok v =>
    cases dest : optionalStringParam "destNode" scope.destNode with
    | error e => simp [source, dest, bind, Except.bind] at made
    | ok w =>
      simp only [source, dest, bind, Except.bind, pure, Except.pure, Except.ok.injEq] at made
      rw [← made, optionalStringParam_eq source, optionalStringParam_eq dest]

theorem isLabelName_source : IsLabelName "source_node".toList :=
  ⟨by decide, List.all_eq_true.mp (by decide)⟩

theorem isLabelName_destination : IsLabelName "destination_node".toList :=
  ⟨by decide, List.all_eq_true.mp (by decide)⟩

theorem scopeMatchers_valid (made : scopeMatchers scope = .ok matchers) :
    ∀ m ∈ matchers, IsLabelName m.name := by
  rw [scopeMatchers_eq made]
  have source := isLabelName_source
  have destination := isLabelName_destination
  generalize "source_node".toList = a at source
  generalize "destination_node".toList = b at destination
  cases scope.sourceNode <;> cases scope.destNode <;> simp [source, destination]

theorem scopeMatchers_injective {other : Scope} (made : scopeMatchers scope = .ok matchers)
    (made' : scopeMatchers other = .ok matchers) : scope = other := by
  have same := (scopeMatchers_eq made).symm.trans (scopeMatchers_eq made')
  have names : "source_node".toList ≠ "destination_node".toList := by decide
  generalize "source_node".toList = a at same names
  generalize "destination_node".toList = b at same names
  obtain ⟨s, d⟩ := scope
  obtain ⟨s', d'⟩ := other
  cases s <;> cases d <;> cases s' <;> cases d' <;> simp_all

/-- Scope values cannot change a rendered selector: it is read back, to its end, as the
matchers it was rendered from, so different scopes are rendered differently. -/
theorem selector_reads_back : (∀ matchers : List Matcher, (∀ m ∈ matchers, IsLabelName m.name) →
      readSelector (selector matchers) = some (matchers.map (MatchOp.equal, ·), []) ∧
      (∀ tail : Text, tail.head? ≠ some '\x7b' → readSelector (selector matchers ++ tail) =
          some (matchers.map (MatchOp.equal, ·), tail)) ∧
      ∀ others : List Matcher, (∀ m ∈ others, IsLabelName m.name) →
        selector matchers = selector others → matchers = others) ∧
    ∀ (scope other : Scope) (matchers others : List Matcher),
      scopeMatchers scope = .ok matchers → scopeMatchers other = .ok others →
      selector matchers = selector others → scope = other := by
  refine ⟨fun matchers valid => ⟨?_, fun tail apart => readSelector_append valid apart,
    fun others valid' same => selector_injective valid valid' same⟩, ?_⟩
  · have read := @readSelector_append _ valid [] (by simp)
    rwa [List.append_nil] at read
  · intro scope other matchers others made made' same
    have equal := selector_injective (scopeMatchers_valid made) (scopeMatchers_valid made') same
    subst equal
    exact scopeMatchers_injective made made'

/-- A value that tries to close its string and add a matcher stays one value. -/
theorem selector_reads_back_quoted :
    let m : Matcher := ⟨"source_node".toList, "a\",x=\"\\\n".toList⟩
    readSelector (selector [m]) = some ([(.equal, m)], []) :=
  (selector_reads_back.1 [_] (List.forall_mem_singleton.mpr isLabelName_source)).1

end Kconmon.Console.LabelSelector
