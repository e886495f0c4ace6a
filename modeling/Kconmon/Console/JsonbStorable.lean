import Kconmon.Lib.Decimal

/-!
# What a JSONB column can store

`validateJSONBStorable` reads JSON text in one pass, with two flags and an index that skips ahead
over escapes and numbers, and refuses what PostgreSQL cannot hold. It is compared here with the
grammar of JSON: a text is a list of tokens, and it is refused exactly if it is not UTF-8 or one
of its strings or numbers cannot be stored.

The index is modelled by the rest of the text from it on, so that reading past the end is the
outcome `Halt.panic`.
-/
namespace Kconmon.Console.Jsonb
open Lib Decimal

inductive StorableError where
  | notUtf8
  | number
  | notJson
  | nul
  | surrogate
  deriving DecidableEq

def numericMaxIntDigits : Int := 131072
def numericMaxScale : Int := 16383
def numericMaxExponent : Int := 1073741822

/-- The text of an error on a field. -/
def StorableError.text (field : String) : StorableError → String
  | .notUtf8 => field ++ " must be valid UTF-8"
  | .number => field ++ " must not contain a number PostgreSQL cannot store (more than " ++
      toString numericMaxIntDigits ++ " digits before the decimal point or " ++
      toString numericMaxScale ++ " after it)"
  | .notJson => field ++ " must be valid JSON"
  | .nul => field ++ " must not contain a NUL character"
  | .surrogate => field ++ " must not contain an unpaired UTF-16 surrogate escape"

inductive Halt where
  | refused (e : StorableError)
  | panic
  deriving DecidableEq

def byteAt (rest : Bytes) (i : Nat) : Except Halt UInt8 :=
  match rest[i]? with
  | some b => .ok b
  | none => .error .panic

def sliceOf (rest : Bytes) (lo hi : Nat) : Except Halt Bytes :=
  if lo ≤ hi ∧ hi ≤ rest.length then .ok ((rest.take hi).drop lo) else .error .panic

def hexDigit (b : UInt8) : Option Nat :=
  if 48 ≤ b.toNat ∧ b.toNat ≤ 57 then some (b.toNat - 48)
  else if 97 ≤ b.toNat ∧ b.toNat ≤ 102 then some (b.toNat - 87)
  else if 65 ≤ b.toNat ∧ b.toNat ≤ 70 then some (b.toNat - 55)
  else none

/-- `strconv.ParseUint(s, 16, 16)` -/
def parseUint16 (s : Bytes) : Option Nat :=
  if s = [] then none
  else ((s.mapM hexDigit).map fun values => values.foldl (fun n d => n * 16 + d) 0).filter
    fun n => decide (n < 65536)

def isHigh (cu : Nat) : Bool := decide (0xD800 ≤ cu ∧ cu ≤ 0xDBFF)
def isLow (cu : Nat) : Bool := decide (0xDC00 ≤ cu ∧ cu ≤ 0xDFFF)

def quote : UInt8 := 34
def backslash : UInt8 := 92
def point : UInt8 := 46
def zero : UInt8 := 48

def isExponentMark (b : UInt8) : Bool := b = letter 'e' || b = letter 'E'

/-- The bytes of `0123456789.eE+-`. -/
def numberByte (b : UInt8) : Bool :=
  isDigit b || b = point || isExponentMark b || b = plus || b = minus

/-- The exponent of a number, unless it is out of range. -/
def exponentOf (expPart : Bytes) : Option Int :=
  if expPart.length > 0 then
    (readSigned 64 expPart).filter fun e =>
      decide (¬ (e > numericMaxExponent ∨ e < -numericMaxExponent))
  else some 0

def trimMinus (num : Bytes) : Bytes :=
  if num.head? = some minus then num.drop 1 else num

/-- `jsonbNumberStorable` -/
def jsonbNumberStorable (num : Bytes) : Bool :=
  let num := trimMinus num
  let mantissa := num.takeWhile (!isExponentMark ·)
  match exponentOf ((num.dropWhile (!isExponentMark ·)).drop 1) with
  | none => false
  | some exp =>
    let intPart := mantissa.takeWhile (· ≠ point)
    let frac := (mantissa.dropWhile (· ≠ point)).drop 1
    if frac.length - exp > numericMaxScale then false
    else if 0 < (intPart.dropWhile (· = zero)).length then
      decide ((intPart.dropWhile (· = zero)).length - 1 + exp < numericMaxIntDigits)
    else if 0 < (frac.dropWhile (· = zero)).length then
      decide ((frac.dropWhile (· = zero)).length - frac.length - 1 + exp < numericMaxIntDigits)
    else true

/-- The loop over the text. -/
def scan (rest : Bytes) (inString pendingHigh : Bool) : Except Halt Unit :=
  match rest with
  | [] => if pendingHigh then .error (.refused .surrogate) else .ok ()
  | c :: rest =>
    if !inString then
      if c = quote then scan rest true pendingHigh
      else if c = minus || isDigit c then
        if jsonbNumberStorable (c :: rest.takeWhile numberByte) then
          scan (rest.dropWhile numberByte) false pendingHigh
        else .error (.refused .number)
      else scan rest false pendingHigh
    else if c = backslash then
      if rest.length = 0 then .error (.refused .notJson)
      else
        match byteAt rest 0 with
        | .error halt => .error halt
        | .ok e =>
          if e = letter 'u' then
            if rest.length < 5 then .error (.refused .notJson)
            else
              match sliceOf rest 1 5 with
              | .error halt => .error halt
              | .ok digits =>
                match parseUint16 digits with
                | none => .error (.refused .notJson)
                | some cu =>
                  if cu = 0 then .error (.refused .nul)
                  else if isLow cu ≠ pendingHigh then .error (.refused .surrogate)
                  else scan (rest.drop 5) true (isHigh cu)
          else if pendingHigh then .error (.refused .surrogate)
          else scan (rest.drop 1) true false
    else if pendingHigh then .error (.refused .surrogate)
    else scan rest (c ≠ quote) false
  termination_by rest.length
  decreasing_by
    all_goals simp only [List.length_cons, List.length_drop]
    all_goals first
      | omega
      | exact Nat.lt_succ_of_le (List.dropWhile_sublist _).length_le

def utf8Valid (raw : Bytes) : Bool := (ByteArray.mk raw.toArray).validateUTF8

def validateJSONBStorable (raw : Bytes) : Except Halt Unit :=
  if !utf8Valid raw then .error (.refused .notUtf8) else scan raw false false

/-- No index is out of range, on any text. -/
theorem scan_ne_panic (rest : Bytes) (inString pendingHigh : Bool) :
    scan rest inString pendingHigh ≠ .error .panic := by
  fun_induction scan rest inString pendingHigh <;> grind [byteAt, sliceOf]

/-! ## The grammar of JSON -/

/-- A hexadecimal digit, in either case. -/
structure HexByte where
  byte : UInt8
  value : Nat
  read : hexDigit byte = some value

/-- The characters after a backslash that stand for one character. -/
def shortEscapes : Bytes := [34, 92, 47, 98, 102, 110, 114, 116]

/-- One item between the quotes of a string. -/
inductive StringItem where
  | plain (b : UInt8) (visible : 32 ≤ b.toNat ∧ b ≠ quote ∧ b ≠ backslash)
  | escape (b : UInt8) (short : b ∈ shortEscapes)
  | unicode (a b c d : HexByte)

namespace StringItem

def bytes : StringItem → Bytes
  | plain b _ => [b]
  | escape b _ => [backslash, b]
  | unicode a b c d => [backslash, letter 'u', a.byte, b.byte, c.byte, d.byte]

/-- The code unit of a `\u` escape. -/
def unit : StringItem → Option Nat
  | plain _ _ | escape _ _ => none
  | unicode a b c d => some (((a.value * 16 + b.value) * 16 + c.value) * 16 + d.value)

/-- An escaped high surrogate. -/
def high (x : StringItem) : Bool := x.unit.any isHigh

/-- An escaped low surrogate. -/
def low (x : StringItem) : Bool := x.unit.any isLow

end StringItem

/-- An exponent: its mark, its sign if it has one, and its digits. -/
structure Exponent where
  mark : UInt8
  isMark : isExponentMark mark = true
  sign : Option Bool
  digits : Bytes
  number : Nat
  written : read digits = some number

namespace Exponent

def tail (e : Exponent) : Bytes :=
  match e.sign with
  | none => e.digits
  | some true => minus :: e.digits
  | some false => plus :: e.digits

def value (e : Exponent) : Int := if e.sign = some true then -e.number else e.number

end Exponent

/-- A number; `frac` is empty where it has no decimal point. -/
structure Number where
  negative : Bool
  int : Bytes
  hasInt : int ≠ []
  intDigits : ∀ b ∈ int, isDigit b = true
  leadingZero : int.head? = some zero → int = [zero]
  frac : Bytes
  fracDigits : ∀ b ∈ frac, isDigit b = true
  exponent : Option Exponent

namespace Number

def fracBytes (n : Number) : Bytes := if n.frac = [] then [] else point :: n.frac

def expBytes (n : Number) : Bytes :=
  match n.exponent with
  | none => []
  | some e => e.mark :: e.tail

def body (n : Number) : Bytes := (n.int ++ n.fracBytes) ++ n.expBytes

def bytes (n : Number) : Bytes := if n.negative then Decimal.minus :: n.body else n.body

def exp (n : Number) : Int := (n.exponent.map Exponent.value).getD 0

/-- The decimal exponent of the most significant digit, if the number is not zero. -/
def leading (n : Number) : Option Int :=
  ((n.int ++ n.frac).findIdx? (· ≠ zero)).map fun i => n.int.length - 1 - i + n.exp

/-- What `numeric` can hold. -/
def Storable (n : Number) : Prop :=
  (-1073741822 ≤ n.exp ∧ n.exp ≤ 1073741822) ∧ n.frac.length - n.exp ≤ 16383 ∧
    ∀ place ∈ n.leading, place < 131072

end Number

inductive Token where
  | space (b : UInt8) (blank : b ∈ ([32, 9, 10, 13] : Bytes))
  | punct (b : UInt8) (structural : b ∈ ([91, 93, 123, 125, 58, 44] : Bytes))
  | literal (text : Bytes) (known : text ∈ ["true", "false", "null"].map (·.toList.map letter))
  | string (items : List StringItem)
  | number (n : Number)

namespace Token

def bytes : Token → Bytes
  | space b _ | punct b _ => [b]
  | literal text _ => text
  | string items => quote :: (items.flatMap StringItem.bytes ++ [quote])
  | number n => n.bytes

def isSpace : Token → Bool
  | space _ _ => true
  | _ => false

def openArray : Token := punct 91 (by decide)
def closeArray : Token := punct 93 (by decide)
def openObject : Token := punct 123 (by decide)
def closeObject : Token := punct 125 (by decide)
def colon : Token := punct 58 (by decide)
def comma : Token := punct 44 (by decide)

/-- The column can hold it: no escaped NUL, every escaped high surrogate right before an escaped
low one and no other low one, and every number within the limits. -/
def Storable : Token → Prop
  | string items => (∀ x ∈ items, x.unit ≠ some 0) ∧ (items.head?.any StringItem.low = false) ∧
      ∀ i, items[i]?.any StringItem.high = items[i + 1]?.any StringItem.low
  | number n => n.Storable
  | _ => True

end Token

def separated : List (List Token) → List Token
  | [] => []
  | [item] => item
  | item :: items => item ++ .comma :: separated items

/-- The tokens of a JSON value, blanks left out. -/
inductive IsValue : List Token → Prop
  | literal (text : Bytes) (known : _) : IsValue [.literal text known]
  | string (items : List StringItem) : IsValue [.string items]
  | number (n : Number) : IsValue [.number n]
  | array (items : List (List Token)) (values : ∀ item ∈ items, IsValue item) :
      IsValue (.openArray :: (separated items ++ [.closeArray]))
  | object (members : List (List StringItem × List Token))
      (values : ∀ m ∈ members, IsValue m.2) : IsValue (.openObject ::
        (separated (members.map fun m => .string m.1 :: .colon :: m.2) ++ [.closeObject]))

/-- A JSON text: one value, with blanks anywhere between its tokens. -/
def IsJson (tokens : List Token) : Prop := IsValue (tokens.filter (!·.isSpace))

def textOf (tokens : List Token) : Bytes := tokens.flatMap Token.bytes

/-! ## Numbers -/

theorem findIdx?_zero (digits : Bytes) : digits.findIdx? (· ≠ zero) =
      if 0 < (digits.dropWhile (· = zero)).length then
        some (digits.length - (digits.dropWhile (· = zero)).length)
      else none := by
  induction digits with
  | nil => rfl
  | cons b digits ih =>
    have shorter : (digits.dropWhile (· = zero)).length ≤ digits.length :=
      (List.dropWhile_sublist _).length_le
    by_cases first : b = zero
    · rw [List.findIdx?_cons, ih, List.dropWhile_cons]
      by_cases some : 0 < (digits.dropWhile (· = zero)).length
      · simp only [first, some, if_true, List.length_cons]
        simp
        omega
      · simp [first, some]
    · simp [List.findIdx?_cons, first]

theorem Number.leading_eq (n : Number) : n.leading =
    if 0 < (n.int.dropWhile (· = zero)).length then
      some ((n.int.dropWhile (· = zero)).length - 1 + n.exp)
    else if 0 < (n.frac.dropWhile (· = zero)).length then
      some ((n.frac.dropWhile (· = zero)).length - n.frac.length - 1 + n.exp)
    else none := by
  have int : (n.int.dropWhile (· = zero)).length ≤ n.int.length :=
    (List.dropWhile_sublist _).length_le
  have frac : (n.frac.dropWhile (· = zero)).length ≤ n.frac.length :=
    (List.dropWhile_sublist _).length_le
  rw [Number.leading, List.findIdx?_append, findIdx?_zero, findIdx?_zero]
  split_ifs <;> simp <;> omega

theorem exponentOf_tail (e : Exponent) : exponentOf e.tail =
    if -1073741822 ≤ e.value ∧ e.value ≤ 1073741822 then some e.value else none := by
  have digits := digits_of_read e.written
  have read := readSigned_of_read e.written
  have signed : readSigned 64 e.tail =
      if -2 ^ 63 ≤ e.value ∧ e.value < 2 ^ 63 then some e.value else none := by
    rcases sign : e.sign with _ | _ | _
    · simp only [Exponent.tail, Exponent.value, sign, read]
      grind
    · simp [Exponent.tail, Exponent.value, sign, readSigned, plus, minus, e.written, Option.filter]
    · simp [Exponent.tail, Exponent.value, sign, readSigned, minus, e.written,
        Option.filter]
  have some : 0 < e.tail.length := by
    have := List.length_pos_iff.mpr digits.1
    unfold Exponent.tail
    split <;> simp_all
  rw [exponentOf, if_pos some, signed]
  unfold numericMaxExponent
  by_cases fits : -1073741822 ≤ e.value ∧ e.value ≤ 1073741822
  · rw [if_pos (by omega), if_pos fits]
    simp [Option.filter]
    omega
  · rw [if_neg fits]
    split_ifs
    · simp [Option.filter]
      omega
    · rfl

variable {b : UInt8}

theorem isDigit_apart (digit : isDigit b = true) :
    isExponentMark b = false ∧ b ≠ point ∧ b ≠ minus ∧ b ≠ quote := by
  refine ⟨?_, ?_, ?_, ?_⟩
  · by_contra mark
    simp only [isExponentMark, Bool.not_eq_false, Bool.or_eq_true, decide_eq_true_eq] at mark
    rcases mark with rfl | rfl <;> exact absurd digit (by decide)
  all_goals
    rintro rfl
    exact absurd digit (by decide)

theorem Number.trimMinus_bytes (n : Number) : trimMinus n.bytes = n.body := by
  obtain ⟨b, int, shape⟩ := List.exists_cons_of_ne_nil n.hasInt
  have first := (isDigit_apart (n.intDigits b (by simp [shape]))).2.2.1
  unfold Number.bytes trimMinus
  split_ifs <;> simp_all [Number.body]

/-- The mantissa and the exponent are found again. -/
theorem Number.split_body (n : Number) :
    n.body.takeWhile (!isExponentMark ·) = n.int ++ n.fracBytes ∧
      n.body.dropWhile (!isExponentMark ·) = n.expBytes := by
  refine takeWhile_append_stop n.expBytes ?_ ?_
  · intro b listed
    have plain : isDigit b = true ∨ b = point := by
      rcases List.mem_append.mp listed with int | frac
      · exact .inl (n.intDigits b int)
      · unfold Number.fracBytes at frac
        have := n.fracDigits b
        grind
    rcases plain with digit | rfl
    · simp [(isDigit_apart digit).1]
    · decide
  · intro b first
    unfold Number.expBytes at first
    split at first
    · cases first
    · rename_i e _
      obtain rfl : e.mark = b := by simpa using first
      simp [e.isMark]

theorem Number.split_mantissa (n : Number) : (n.int ++ n.fracBytes).takeWhile (· ≠ point) = n.int ∧
      (n.int ++ n.fracBytes).dropWhile (· ≠ point) = n.fracBytes := by
  refine takeWhile_append_stop n.fracBytes ?_ ?_
  · intro b listed
    simpa using (isDigit_apart (n.intDigits b listed)).2.1
  · unfold Number.fracBytes
    grind

/-- The check of a number literal agrees with the limits of `numeric`. -/
theorem jsonbNumberStorable_iff (n : Number) : jsonbNumberStorable n.bytes = true ↔ n.Storable := by
  have frac : n.fracBytes.drop 1 = n.frac := by
    unfold Number.fracBytes
    split_ifs with none <;> simp [none]
  have exponent : exponentOf (n.expBytes.drop 1) =
      if -1073741822 ≤ n.exp ∧ n.exp ≤ 1073741822 then some n.exp else none := by
    unfold Number.expBytes Number.exp
    cases n.exponent with
    | none => rfl
    | some e => exact exponentOf_tail e
  unfold jsonbNumberStorable Number.Storable
  simp only [n.trimMinus_bytes, n.split_body, n.split_mantissa, frac, exponent, n.leading_eq]
  unfold numericMaxScale numericMaxIntDigits
  by_cases range : -1073741822 ≤ n.exp ∧ n.exp ≤ 1073741822
  · simp only [if_pos range]
    split_ifs <;> simp <;> omega
  · simp [range]

/-! ## Scanning a token -/

/-- Bytes that neither open a string nor start a number are passed over. -/
theorem scan_pass {run : Bytes}
    (plain : ∀ b ∈ run, b ≠ quote ∧ b ≠ minus ∧ isDigit b = false) (rest : Bytes) :
    scan (run ++ rest) false false = scan rest false false := by
  induction run with
  | nil => rfl
  | cons b run ih =>
    obtain ⟨opens, minus, digit⟩ := plain b (by simp)
    rw [List.cons_append, scan]
    simp only [Bool.not_false, if_true, opens, minus, digit, if_false, decide_false, Bool.or_self,
      Bool.false_eq_true]
    exact ih fun b listed => plain b (by simp [listed])

theorem hexDigit_lt {v : Nat} (read : hexDigit b = some v) : v < 16 := by
  unfold hexDigit at read
  grind

theorem parseUint16_hex (a b c d : HexByte) :
    parseUint16 [a.byte, b.byte, c.byte, d.byte] = (StringItem.unicode a b c d).unit := by
  have := hexDigit_lt a.read
  have := hexDigit_lt b.read
  have := hexDigit_lt c.read
  have := hexDigit_lt d.read
  simp only [parseUint16, List.mapM_cons, List.mapM_nil, a.read, b.read, c.read, d.read,
    StringItem.unit]
  simp [Option.filter]
  omega

/-- Whether the surrogate escapes pair up, if one before is still to be completed. -/
def pairsUp : Bool → List StringItem → Bool
  | pending, [] => !pending
  | pending, x :: items => x.low == pending && pairsUp x.high items

theorem pairsUp_iff (pending : Bool) (items : List StringItem) :
    pairsUp pending items = true ↔ items.head?.any StringItem.low = pending ∧
      ∀ i, items[i]?.any StringItem.high = items[i + 1]?.any StringItem.low := by
  induction items generalizing pending with
  | nil => cases pending <;> simp [pairsUp]
  | cons x items ih =>
    rw [pairsUp, Bool.and_eq_true, beq_iff_eq, ih]
    constructor
    · rintro ⟨first, next, rest⟩
      refine ⟨by simpa using first, fun i => ?_⟩
      cases i with
      | zero => simpa [List.head?_eq_getElem?] using next.symm
      | succ i => simpa using rest i
    · rintro ⟨first, rest⟩
      refine ⟨by simpa using first, ?_, fun i => by simpa using rest (i + 1)⟩
      have next := rest 0
      simpa [List.head?_eq_getElem?] using next.symm

theorem ne_u_of_short (short : b ∈ shortEscapes) : b ≠ letter 'u' := by
  rintro rfl
  exact absurd short (by decide)

theorem scan_unicode {x : StringItem} {a b c d : HexByte} (shape : x = .unicode a b c d)
    (rest : Bytes) (pending : Bool) : scan (x.bytes ++ rest) true pending = .ok () ↔
      x.unit ≠ some 0 ∧ x.low = pending ∧ scan rest true x.high = .ok () := by
  have parsed := parseUint16_hex a b c d
  obtain ⟨cu, unit⟩ : ∃ cu, x.unit = some cu := ⟨_, by rw [shape]; rfl⟩
  rw [← shape, unit] at parsed
  have text : x.bytes ++ rest =
      backslash :: letter 'u' :: a.byte :: b.byte :: c.byte :: d.byte :: rest := by
    rw [shape]
    rfl
  have long : ¬ (letter 'u' :: a.byte :: b.byte :: c.byte :: d.byte :: rest).length < 5 := by
    simp only [List.length_cons]
    omega
  rw [text, scan]
  simp only [Bool.not_true, Bool.false_eq_true, if_false, if_true, long, byteAt, sliceOf,
    List.getElem?_cons_zero, List.take_succ_cons, List.drop_succ_cons, List.drop_zero,
    List.take_zero, StringItem.low, StringItem.high, unit, Option.any_some]
  simp [parsed]
  grind

/-- The inside of a string, up to its closing quote. -/
theorem scan_items (items : List StringItem) (rest : Bytes) (pending : Bool) :
    scan (items.flatMap StringItem.bytes ++ quote :: rest) true pending = .ok () ↔
      ((∀ x ∈ items, x.unit ≠ some 0) ∧ pairsUp pending items = true) ∧
        scan rest false false = .ok () := by
  induction items generalizing pending with
  | nil =>
    have other : quote ≠ backslash := by decide
    rw [List.flatMap_nil, List.nil_append, scan]
    cases pending <;> simp [other, pairsUp]
  | cons x items ih =>
    rw [List.flatMap_cons, List.append_assoc]
    cases shape : x with
    | plain b visible =>
      rw [StringItem.bytes, List.singleton_append, scan]
      cases pending <;>
        simp [visible, ih, pairsUp, StringItem.low, StringItem.high, StringItem.unit]
    | escape b short =>
      rw [StringItem.bytes, List.cons_append, List.singleton_append, scan]
      cases pending <;>
        simp [byteAt, ne_u_of_short short, ih, pairsUp, StringItem.low, StringItem.high,
          StringItem.unit]
    | unicode a b c d =>
      rw [scan_unicode rfl, ih, pairsUp, List.forall_mem_cons, Bool.and_eq_true, beq_iff_eq]
      tauto

theorem numberByte_of_digit (digit : isDigit b = true) : numberByte b = true := by
  simp [numberByte, digit]

theorem Exponent.numberByte_tail (e : Exponent) : ∀ b ∈ e.tail, numberByte b = true := by
  have digits := (digits_of_read e.written).2
  have minus : numberByte minus = true := by decide
  have plus : numberByte plus = true := by decide
  unfold Exponent.tail
  split <;> grind [numberByte_of_digit]

theorem Number.numberByte_body (n : Number) : ∀ b ∈ n.body, numberByte b = true := by
  have int := n.intDigits
  have frac := n.fracDigits
  have dot : numberByte point = true := by decide
  have marked : ∀ b ∈ n.expBytes, numberByte b = true := by
    unfold Number.expBytes
    split
    · simp
    · rename_i e _
      have tail := e.numberByte_tail
      have mark : numberByte e.mark = true := by simp [numberByte, e.isMark]
      grind
  unfold Number.body Number.fracBytes
  grind [numberByte_of_digit]

/-- A number ends where no byte of a number follows. -/
theorem scan_number (n : Number) {rest : Bytes} (stop : ∀ b ∈ rest.head?, numberByte b = false) :
    scan (n.bytes ++ rest) false false = .ok () ↔ n.Storable ∧ scan rest false false = .ok () := by
  obtain ⟨c, tail, shape, start, all⟩ : ∃ c tail, n.bytes = c :: tail ∧
      (c ≠ quote ∧ (decide (c = minus) || isDigit c) = true) ∧ ∀ b ∈ tail, numberByte b = true := by
    have all := n.numberByte_body
    unfold Number.bytes
    split_ifs
    · exact ⟨_, _, rfl, by decide, all⟩
    · obtain ⟨b, int, int_eq⟩ := List.exists_cons_of_ne_nil n.hasInt
      have digit := n.intDigits b (by simp [int_eq])
      have body : n.body = b :: (int ++ n.fracBytes ++ n.expBytes) := by simp [Number.body, int_eq]
      refine ⟨b, _, body, ⟨(isDigit_apart digit).2.2.2, by simp [digit]⟩, ?_⟩
      grind
  obtain ⟨taken, left⟩ := takeWhile_append_stop rest all stop
  rw [shape, List.cons_append, scan]
  simp only [Bool.not_false, if_true, start, if_false, taken, left, ← shape]
  rw [← jsonbNumberStorable_iff]
  split_ifs <;> simp_all

/-! ## Numbers are set apart -/

/-- Blanks and structural characters, after which anything may stand and before which a number
ends. -/
def Token.separates : Token → Bool
  | .space _ _ | .punct _ _ => true
  | _ => false

def Token.isNumber : Token → Bool
  | .number _ => true
  | _ => false

/-- Where a number is followed by a token at all, that is a separator. -/
def Apart (a b : Token) : Prop := a.isNumber = true → b.separates = true

theorem isChain_separated {items : List (List Token)}
    (chains : ∀ item ∈ items, item.IsChain Apart) : (separated items).IsChain Apart := by
  induction items with
  | nil => exact .nil
  | cons item items ih =>
    cases items with
    | nil => exact chains item (by simp)
    | cons next items =>
      have rest := ih fun item listed => chains item (by simp [listed])
      rw [separated, List.isChain_append]
      refine ⟨chains item (by simp), ?_, ?_⟩
      · rw [List.isChain_cons]
        exact ⟨fun _ _ => by simp [Apart, Token.comma, Token.isNumber], rest⟩
      · simp [Apart, Token.comma, Token.separates]
      · simp

variable {tokens : List Token}

theorem IsValue.isChain (value : IsValue tokens) : tokens.IsChain Apart := by
  induction value with
  | literal text known => exact .singleton _
  | string items => exact .singleton _
  | number n => exact .singleton _
  | array items values ih =>
    rw [List.isChain_cons, List.isChain_append]
    refine ⟨fun _ _ => by simp [Apart, Token.openArray, Token.isNumber], isChain_separated ih,
      .singleton _, ?_⟩
    simp [Apart, Token.closeArray, Token.separates]
  | object members values ih =>
    rw [List.isChain_cons, List.isChain_append]
    refine ⟨fun _ _ => by simp [Apart, Token.openObject, Token.isNumber], isChain_separated ?_,
      .singleton _, ?_⟩
    · intro item listed
      obtain ⟨m, member, rfl⟩ := List.mem_map.mp listed
      rw [List.isChain_cons, List.isChain_cons]
      exact ⟨fun _ _ => by simp [Apart, Token.isNumber],
        fun _ _ => by simp [Apart, Token.colon, Token.isNumber], ih m member⟩
    · simp [Apart, Token.closeObject, Token.separates]

/-- Blanks between the tokens keep numbers apart. -/
theorem isChain_of_filter (chain : (tokens.filter (!·.isSpace)).IsChain Apart) :
    tokens.IsChain Apart := by
  induction tokens with
  | nil => exact .nil
  | cons t tokens ih =>
    rw [List.isChain_cons]
    by_cases blank : t.isSpace = true
    · rw [List.filter_cons_of_neg (by simp [blank])] at chain
      refine ⟨fun _ _ number => ?_, ih chain⟩
      cases t <;> simp_all [Token.isSpace, Token.isNumber]
    · rw [List.filter_cons_of_pos (by simp [blank]), List.isChain_cons] at chain
      refine ⟨fun u first => ?_, ih chain.2⟩
      obtain ⟨rest, rfl⟩ := List.head?_eq_some_iff.mp first
      by_cases gap : u.isSpace = true
      · intro _
        cases u <;> simp_all [Token.isSpace, Token.separates]
      · exact chain.1 u (by simp [gap])

/-- A blank or a structural character opens no string and belongs to no number. -/
theorem separator_byte
    (known : b ∈ ([32, 9, 10, 13] : Bytes) ∨ b ∈ ([91, 93, 123, 125, 58, 44] : Bytes)) :
    (b ≠ quote ∧ b ≠ minus ∧ isDigit b = false) ∧ numberByte b = false := by
  have every : ∀ b ∈ ([32, 9, 10, 13] ++ [91, 93, 123, 125, 58, 44] : Bytes),
      (b ≠ quote ∧ b ≠ minus ∧ isDigit b = false) ∧ numberByte b = false := by
    decide +kernel
  exact every b (List.mem_append.2 known)

theorem head_bytes {t : Token} (separates : t.separates = true) (rest : Bytes) :
    ∀ b ∈ (t.bytes ++ rest).head?, numberByte b = false := by
  cases t with
  | space b blank => simpa [Token.bytes] using (separator_byte (.inl blank)).2
  | punct b known => simpa [Token.bytes] using (separator_byte (.inr known)).2
  | literal | string | number => cases separates

/-- One token: it is passed exactly if the column can hold it. -/
theorem scan_token {t : Token} {rest : Bytes}
    (stop : t.isNumber = true → ∀ b ∈ rest.head?, numberByte b = false) :
    scan (t.bytes ++ rest) false false = .ok () ↔ t.Storable ∧ scan rest false false = .ok () := by
  have words : ∀ text ∈ ["true", "false", "null"].map (·.toList.map letter), ∀ b ∈ text,
    b ≠ quote ∧ b ≠ minus ∧ isDigit b = false := by decide +kernel
  cases t with
  | space b blank =>
    rw [Token.bytes, scan_pass (by simpa using (separator_byte (.inl blank)).1)]
    simp [Token.Storable]
  | punct b known =>
    rw [Token.bytes, scan_pass (by simpa using (separator_byte (.inr known)).1)]
    simp [Token.Storable]
  | literal text known =>
    rw [Token.bytes, scan_pass (words text known)]
    simp [Token.Storable]
  | string items =>
    rw [Token.bytes, List.cons_append, List.append_assoc, scan]
    simp only [Bool.not_false, if_true, List.singleton_append, scan_items, pairsUp_iff,
      Token.Storable]
  | number n => exact scan_number n (stop rfl)

theorem scan_tokens (chain : tokens.IsChain Apart) :
    scan (textOf tokens) false false = .ok () ↔ ∀ t ∈ tokens, t.Storable := by
  induction tokens with
  | nil => simp [textOf, scan]
  | cons t tokens ih =>
    obtain ⟨next, rest⟩ := List.isChain_cons.mp chain
    have stop : t.isNumber = true → ∀ b ∈ (textOf tokens).head?, numberByte b = false := by
      intro number
      cases tokens with
      | nil => simp [textOf]
      | cons u tokens => exact head_bytes (next u (by simp) number) _
    rw [textOf, List.flatMap_cons, ← textOf, scan_token stop, ih rest, List.forall_mem_cons]

/-- The check refuses exactly what the column cannot hold, and never reads out of range. -/
theorem storable_exact : (∀ raw : Bytes, validateJSONBStorable raw ≠ .error .panic) ∧
    ∀ (raw : Bytes) (tokens : List Token), IsJson tokens → raw = textOf tokens →
      (validateJSONBStorable raw = .ok () ↔ utf8Valid raw = true ∧ ∀ t ∈ tokens, t.Storable) := by
  constructor
  · intro raw
    unfold validateJSONBStorable
    split_ifs
    · simp
    · exact scan_ne_panic raw false false
  · rintro raw tokens json rfl
    have scanned := scan_tokens (isChain_of_filter (IsValue.isChain json))
    unfold validateJSONBStorable
    split_ifs with invalid
    · simp_all
    · simp_all

/-- `-1.5e3` -/
def thousands : Number where
  negative := true
  int := [letter '1']
  hasInt := by simp
  intDigits := List.forall_mem_singleton.mpr rfl
  leadingZero := by decide
  frac := [letter '5']
  fracDigits := List.forall_mem_singleton.mpr rfl
  exponent := some ⟨letter 'e', by decide, none, [letter '3'], 3, by decide⟩

/-- `\ud83d` -/
def highHalf : StringItem :=
  .unicode ⟨letter 'd', 13, rfl⟩ ⟨letter '8', 8, rfl⟩ ⟨letter '3', 3, rfl⟩ ⟨letter 'd', 13, rfl⟩

/-- `\ude00` -/
def lowHalf : StringItem :=
  .unicode ⟨letter 'd', 13, rfl⟩ ⟨letter 'e', 14, rfl⟩ ⟨letter '0', 0, rfl⟩ ⟨letter '0', 0, rfl⟩

/-- An object with one member, a quote and the items in its key and a number in an array. -/
def document (items : List StringItem) : List Token :=
  [.openObject, .string (.escape quote (by decide) :: items), .colon, .space 32 (by decide),
    .openArray, .number thousands, .closeArray, .closeObject]

theorem document_isJson (items : List StringItem) : IsJson (document items) := by
  have listed : IsValue [.openArray, .number thousands, .closeArray] :=
    .array [[.number thousands]] (by simpa using .number thousands)
  exact .object [(.escape quote (by decide) :: items, _)] (by simpa using listed)

/-- A surrogate pair in the key is stored, and half of one is not. -/
theorem storable_exact_document : textOf (document [highHalf, lowHalf]) =
        "\x7b\"\\\"\\ud83d\\ude00\": [-1.5e3]\x7d".toList.map letter ∧
      validateJSONBStorable (textOf (document [highHalf, lowHalf])) = .ok () ∧
      validateJSONBStorable (textOf (document [highHalf])) ≠ .ok () := by
  have exact (items : List StringItem) := storable_exact.2 _ _ (document_isJson items) rfl
  refine ⟨by decide +kernel, (exact _).mpr ⟨by decide +kernel, ?_⟩, fun stored => ?_⟩
  · have limits : thousands.Storable := ⟨by decide, by decide, by decide⟩
    have paired : (Token.string [.escape quote (by decide), highHalf, lowHalf]).Storable := by
      refine ⟨by decide, by decide, fun i => ?_⟩
      match i with
      | 0 | 1 | 2 => decide
      | i + 3 => rfl
    simp only [document, List.forall_mem_cons]
    exact ⟨trivial, paired, trivial, trivial, trivial, limits, trivial, trivial, nofun⟩
  · have lone := ((exact _).mp stored).2 (.string [.escape quote (by decide), highHalf]) (by
      simp [document])
    exact absurd (lone.2.2 1) (by decide)

end Kconmon.Console.Jsonb
