import Kconmon.Lib.Base64
import Kconmon.Lib.Decimal

/-!
# The cursor over pairs

A page of destinations is continued after a pair. Its cursor is the length of the
source node, a separator and the two names, base64-encoded. The decoder checks the length
with the machine's own integers before it slices, and the sum it compares wraps around for
a length near the largest integer: such a cursor makes the slice expression fail. Every
other cursor is accepted or refused as it should be.
-/
namespace Kconmon.Console.Cursor
open Lib Decimal

/-- A string, whose length is an `int`. -/
structure GoString where
  bytes : Bytes
  fits : bytes.length < 2 ^ 63

def cursorSep : UInt8 := 124

/-- The `RawURLEncoding` of the standard library. -/
def urlAlphabet : Base64.Alphabet UInt8 where
  symbols := (Base64.row 'A' 26 ++ Base64.row 'a' 26 ++ Base64.row '0' 10 ++ ['-', '_']).map
    fun c => .ofNat c.toNat
  skips b := b = 13 || b = 10
  length := by decide
  nodup := by decide
  kept := by decide +kernel

inductive CursorError where
  | notBase64
  | missingSeparator
  | badSourceLength
  | notText
  deriving DecidableEq

/-- How a call can end without a pair: an error, or a slice expression out of range. -/
inductive Halt where
  | malformed (e : CursorError)
  | panic
  deriving DecidableEq

/-- `s[lo:hi]` -/
def slice (s : Bytes) (lo hi : Int) : Except Halt Bytes :=
  if 0 ≤ lo ∧ lo ≤ hi ∧ hi ≤ s.length then .ok ((s.take hi.toNat).drop lo.toNat)
  else .error .panic

/-- What a text parameter may hold. -/
def isText (field : Bytes) : Bool := (ByteArray.mk field.toArray).validateUTF8 && !field.contains 0

def encodePairCursor (sourceNode destination : Bytes) : Bytes :=
  urlAlphabet.encode (write sourceNode.length ++ cursorSep :: (sourceNode ++ destination))

def orElse {α : Type} (e : CursorError) : Option α → Except Halt α
  | some a => .ok a
  | none => .error (.malformed e)

/-- The two fields of the body, each fit for a query. -/
def splitBody (body : Bytes) (n : Int) : Except Halt (Bytes × Bytes) := do
  let sourceNode ← slice body 0 n
  let destination ← slice body n body.length
  if isText sourceNode ∧ isText destination then
    .ok (sourceNode, destination)
  else .error (.malformed .notText)

/-- The decoder once the base64 is undone. -/
def decodeRaw (raw : Bytes) : Except Halt (Bytes × Bytes) := do
  let sep ← orElse .missingSeparator (raw.idxOf? cursorSep)
  let digits ← slice raw 0 sep
  let n ← orElse .badSourceLength (readSigned 64 digits)
  if n < 0 ∨ wrap (sep + 1 + n) > raw.length then
    .error (.malformed .badSourceLength)
  else
    let body ← slice raw (sep + 1) raw.length
    splitBody body n

/-- `none` is the first page. -/
def decodePairCursor (cursor : GoString) : Except Halt (Option (Bytes × Bytes)) :=
  if cursor.bytes = [] then .ok none
  else do
    let raw ← orElse .notBase64 (urlAlphabet.decode cursor.bytes)
    let pair ← decodeRaw raw
    return some pair

/-! ## The bounds check -/

/-- The bytes have a length and a separator, and the end of the source node that they give is
beyond the largest `int`. -/
def Overflows (raw : Bytes) : Prop :=
  ∃ sep n, raw.idxOf? cursorSep = some sep ∧ readSigned 64 (raw.take sep) = some n ∧
    0 ≤ n ∧ (2 : Int) ^ 63 ≤ sep + 1 + n

variable {n : Int}

theorem readSigned_bounds {text : Bytes} (read : Decimal.readSigned 64 text = some n) :
    -2 ^ 63 ≤ n ∧ n < 2 ^ 63 := by
  obtain ⟨-, bounds⟩ := Option.filter_eq_some_iff.mp read
  simpa using bounds

variable {s : Bytes}

theorem slice_take {i : Nat} (bound : i ≤ s.length) : slice s 0 i = .ok (s.take i) := by
  rw [slice, if_pos ⟨le_rfl, by omega, by omega⟩]
  simp

theorem slice_drop {i : Nat} (bound : i ≤ s.length) : slice s i s.length = .ok (s.drop i) := by
  rw [slice, if_pos ⟨by omega, by omega, le_rfl⟩]
  simp

theorem slice_panic (beyond : s.length < n) : slice s 0 n = .error .panic := by
  rw [slice, if_neg (by omega)]

section
variable {raw : Bytes} {sep : Nat}

section
variable (found : raw.idxOf? cursorSep = some sep)
include found

theorem sep_lt : sep < raw.length := (List.idxOf?_eq_some_iff.mp found).1

theorem raw_eq : raw = raw.take sep ++ cursorSep :: raw.drop (sep + 1) := by
  obtain ⟨bound, here, -⟩ := List.idxOf?_eq_some_iff.mp found
  rw [← here, List.getElem_cons_drop, List.take_append_drop]

/-- The decoder up to its bounds check. -/
theorem decodeRaw_of_found
    (read : readSigned 64 (raw.take sep) = some n) : decodeRaw raw =
      if n < 0 ∨ wrap (sep + 1 + n) > raw.length then .error (.malformed .badSourceLength)
      else splitBody (raw.drop (sep + 1)) n := by
  have bound := sep_lt found
  have head : slice raw 0 sep = .ok (raw.take sep) := slice_take bound.le
  have body : slice raw ((sep : Int) + 1) raw.length = .ok (raw.drop (sep + 1)) :=
    slice_drop (i := sep + 1) bound
  rw [decodeRaw, found]
  simp only [orElse, bind, Except.bind, head, read, body]

end

theorem decodeRaw_of_overflows (fits : raw.length < 2 ^ 63) (overflows : Overflows raw) :
    decodeRaw raw = .error .panic := by
  obtain ⟨sep, n, found, read, positive, large⟩ := overflows
  have bound := sep_lt found
  obtain ⟨-, small⟩ := readSigned_bounds read
  have wrapped : wrap (sep + 1 + n) < 0 := wrap_of_le large (by omega)
  have beyond : ((raw.drop (sep + 1)).length : Int) < n := by
    rw [List.length_drop]
    omega
  rw [decodeRaw_of_found found read, if_neg (by omega), splitBody, slice_panic beyond]
  rfl

/-- A length whose end is an `int`: it is checked, and the rest is split there. -/
theorem decodeRaw_of_fits {k : Nat} (found : raw.idxOf? cursorSep = some sep)
    (read : readSigned 64 (raw.take sep) = some (k : Int)) (small : sep + 1 + k < 2 ^ 63) :
    decodeRaw raw =
      if raw.length < sep + 1 + k then .error (.malformed .badSourceLength)
      else if isText ((raw.drop (sep + 1)).take k) ∧ isText ((raw.drop (sep + 1)).drop k) then
        .ok ((raw.drop (sep + 1)).take k, (raw.drop (sep + 1)).drop k)
      else .error (.malformed .notText) := by
  have wrapped : wrap (sep + 1 + (k : Int)) = sep + 1 + k := wrap_of_lt (by omega) (by omega)
  rw [decodeRaw_of_found found read, wrapped]
  split
  · rw [if_pos (by omega)]
  · have bound : k ≤ (raw.drop (sep + 1)).length := by
      rw [List.length_drop]
      omega
    rw [if_neg (by omega), splitBody, slice_take bound, slice_drop bound]
    rfl

/-- A cursor whose length does not overflow is refused, or it is split at its length. -/
theorem decodeRaw_cases (clear : ¬ Overflows raw) : (∃ e, decodeRaw raw = .error (.malformed e)) ∨
      ∃ (sep k : Nat), raw.idxOf? cursorSep = some sep ∧
        readSigned 64 (raw.take sep) = some (k : Int) ∧ sep + 1 + k ≤ raw.length ∧
        decodeRaw raw = .ok ((raw.drop (sep + 1)).take k, (raw.drop (sep + 1)).drop k) := by
  cases found : raw.idxOf? cursorSep with
  | none => simp [decodeRaw, found, orElse, bind, Except.bind]
  | some sep =>
    cases read : readSigned 64 (raw.take sep) with
    | none =>
      have head : slice raw 0 sep = .ok (raw.take sep) := slice_take (sep_lt found).le
      simp [decodeRaw, found, orElse, bind, Except.bind, head, read]
    | some n =>
      by_cases negative : n < 0
      · simp [decodeRaw_of_found found read, negative]
      · obtain ⟨k, rfl⟩ := Int.eq_ofNat_of_zero_le (not_lt.mp negative)
        have small : sep + 1 + k < 2 ^ 63 := by
          by_contra large
          exact clear ⟨sep, k, found, read, by omega, by omega⟩
        rw [decodeRaw_of_fits found read small]
        split_ifs with short
        · exact .inl ⟨_, rfl⟩
        · exact .inr ⟨sep, k, rfl, read, Nat.le_of_not_lt short, rfl⟩
        · exact .inl ⟨_, rfl⟩

theorem decodeRaw_ne_panic (clear : ¬ Overflows raw) : decodeRaw raw ≠ .error .panic := by
  rcases decodeRaw_cases clear with ⟨e, refused⟩ | ⟨sep, k, -, -, -, accepted⟩ <;> simp_all

/-- An accepted cursor is the length, the separator and the two fields it is split into. -/
theorem decodeRaw_ok (fits : raw.length < 2 ^ 63) {sourceNode destination : Bytes}
    (accepted : decodeRaw raw = .ok (sourceNode, destination)) :
    ∃ sep, raw.idxOf? cursorSep = some sep ∧
      readSigned 64 (raw.take sep) = some (sourceNode.length : Int) ∧
      raw = raw.take sep ++ cursorSep :: (sourceNode ++ destination) := by
  have clear : ¬ Overflows raw := by
    intro overflows
    rw [decodeRaw_of_overflows fits overflows] at accepted
    cases accepted
  rcases decodeRaw_cases clear with ⟨e, refused⟩ | ⟨sep, k, found, read, long, split⟩
  · cases refused.symm.trans accepted
  · cases split.symm.trans accepted
    refine ⟨sep, found, ?_, ?_⟩
    · rw [read, List.length_take_of_le (by rw [List.length_drop]; omega)]
    · rw [List.take_append_drop]
      exact raw_eq found

end

/-- The length is written the one way the encoder writes it. -/
def Canonical (raw : Bytes) : Prop := ∃ k rest, raw = Decimal.write k ++ cursorSep :: rest

theorem idxOf_write (k : Nat) (rest : Bytes) :
    (write k ++ cursorSep :: rest).idxOf? cursorSep = some (write k).length := by
  refine List.idxOf?_eq_some_iff.mpr ⟨by simp, by simp, fun j before same => ?_⟩
  rw [List.getElem_append_left before] at same
  exact notMem_write (by decide) k (same ▸ List.getElem_mem before)

theorem take_write (k : Nat) (rest : Bytes) :
    (write k ++ cursorSep :: rest).take (write k).length = write k := by
  simp

/-! ## Both directions -/

theorem decode_encodePairCursor (sourceNode destination : Bytes) :
    urlAlphabet.decode (encodePairCursor sourceNode destination) =
      some (write sourceNode.length ++ cursorSep :: (sourceNode ++ destination)) :=
  urlAlphabet.decode_encode _

/-- A canonical cursor that is accepted says what the pair it decodes to would be encoded as. -/
theorem raw_of_canonical {raw sourceNode destination : Bytes} (fits : raw.length < 2 ^ 63)
    (accepted : decodeRaw raw = .ok (sourceNode, destination)) (canonical : Canonical raw) :
    raw = write sourceNode.length ++ cursorSep :: (sourceNode ++ destination) := by
  obtain ⟨sep, found, read, split⟩ := decodeRaw_ok fits accepted
  obtain ⟨k, rest, rfl⟩ := canonical
  obtain rfl := Option.some.inj ((idxOf_write k rest).symm.trans found)
  rw [take_write] at read split
  have same : sourceNode.length = k := by exact_mod_cast eq_of_readSigned_write read
  rw [same]
  exact split

theorem decodeRaw_write {sourceNode destination : Bytes}
    (fits : (write sourceNode.length ++ cursorSep :: (sourceNode ++ destination)).length <
      2 ^ 63)
    (source : isText sourceNode = true) (dest : isText destination = true) :
    decodeRaw (write sourceNode.length ++ cursorSep :: (sourceNode ++ destination)) =
      .ok (sourceNode, destination) := by
  simp only [List.length_append, List.length_cons] at fits
  have found := idxOf_write sourceNode.length (sourceNode ++ destination)
  have read : readSigned 64 ((write sourceNode.length ++
      cursorSep :: (sourceNode ++ destination)).take (write sourceNode.length).length) =
      some (sourceNode.length : Int) := by
    rw [take_write]
    exact readSigned_write_of_lt (by omega)
  rw [decodeRaw_of_fits found read (by omega), if_neg (by simp; omega)]
  have body : (write sourceNode.length ++ cursorSep :: (sourceNode ++ destination)).drop
      ((write sourceNode.length).length + 1) = sourceNode ++ destination := by
    rw [← List.drop_drop, List.drop_left]
    rfl
  rw [body, List.take_left, List.drop_left, if_pos ⟨source, dest⟩]

variable {cursor : GoString}

theorem decodePairCursor_of_decode {raw : Bytes} (nonempty : cursor.bytes ≠ [])
    (decoded : urlAlphabet.decode cursor.bytes = some raw) :
    decodePairCursor cursor = (decodeRaw raw).map some := by
  rw [decodePairCursor, if_neg nonempty, decoded]
  simp only [orElse, bind, Except.bind]
  cases decodeRaw raw <;> rfl

/-- What the decoder sees of a cursor is no longer than an `int` says. -/
theorem length_raw {raw : Bytes} (decoded : urlAlphabet.decode cursor.bytes = some raw) :
    raw.length < 2 ^ 63 := Nat.lt_of_le_of_lt (urlAlphabet.length_decode decoded) cursor.fits

theorem nonempty_of_decode {b : UInt8} {rest : Bytes}
    (decoded : urlAlphabet.decode cursor.bytes = some (b :: rest)) : cursor.bytes ≠ [] := by
  intro empty
  rw [empty] at decoded
  cases decoded

/-- A cursor is handled without a panic, and what is accepted in canonical form is what the encoder
writes for it, exactly if the end of the source node that it announces is an `int`. Every pair of
texts comes back from its cursor. -/
theorem decodePairCursor_iff (cursor : GoString) : ((decodePairCursor cursor ≠ .error .panic ∧
        ∀ sourceNode destination raw,
          decodePairCursor cursor = .ok (some (sourceNode, destination)) →
          urlAlphabet.decode cursor.bytes = some raw → Canonical raw →
            urlAlphabet.decode (encodePairCursor sourceNode destination) = some raw) ↔
      ∀ raw, urlAlphabet.decode cursor.bytes = some raw → ¬ Overflows raw) ∧
    ∀ sourceNode destination : Bytes, isText sourceNode = true → isText destination = true →
        cursor.bytes = encodePairCursor sourceNode destination →
          decodePairCursor cursor = .ok (some (sourceNode, destination)) := by
  refine ⟨⟨?_, fun clear => ⟨fun panics => ?_, ?_⟩⟩, ?_⟩
  · rintro ⟨safe, -⟩ raw decoded overflows
    have nonempty : cursor.bytes ≠ [] := by
      obtain ⟨sep, -, found, -⟩ := overflows
      cases raw with
      | nil => cases found
      | cons b rest => exact nonempty_of_decode decoded
    refine safe ?_
    rw [decodePairCursor_of_decode nonempty decoded,
      decodeRaw_of_overflows (length_raw decoded) overflows]
    rfl
  · by_cases empty : cursor.bytes = []
    · rw [decodePairCursor, if_pos empty] at panics
      cases panics
    · cases decoded : urlAlphabet.decode cursor.bytes with
      | none =>
        rw [decodePairCursor, if_neg empty, decoded] at panics
        cases panics
      | some raw =>
        have safe := decodeRaw_ne_panic (clear raw decoded)
        rw [decodePairCursor_of_decode empty decoded] at panics
        cases outcome : decodeRaw raw with
        | error halt =>
          rw [outcome] at panics safe
          cases panics
          exact safe rfl
        | ok pair =>
          rw [outcome] at panics
          cases panics
  · intro sourceNode destination raw accepted decoded canonical
    have nonempty : cursor.bytes ≠ [] := by
      intro empty
      rw [decodePairCursor, if_pos empty] at accepted
      cases accepted
    rw [decodePairCursor_of_decode nonempty decoded] at accepted
    cases outcome : decodeRaw raw with
    | error halt =>
      rw [outcome] at accepted
      cases accepted
    | ok pair =>
      rw [outcome] at accepted
      cases Except.ok.inj accepted
      rw [decode_encodePairCursor, ← raw_of_canonical (length_raw decoded) outcome canonical]
  · intro sourceNode destination source dest written
    have decoded := decode_encodePairCursor sourceNode destination
    rw [← written] at decoded
    have nonempty : cursor.bytes ≠ [] := by
      obtain ⟨b, rest, shape⟩ := List.exists_cons_of_ne_nil (write_ne_nil sourceNode.length)
      rw [shape] at decoded
      exact nonempty_of_decode decoded
    rw [decodePairCursor_of_decode nonempty decoded,
      decodeRaw_write (length_raw decoded) source dest]
    rfl

/-- Fields that hold the separator, digits and a letter of two bytes. -/
theorem decodePairCursor_iff_separators :
    ∃ cursor : GoString, cursor.bytes = encodePairCursor [51, 124, 110, 195, 179] [124, 49] ∧
      decodePairCursor cursor = .ok (some ([51, 124, 110, 195, 179], [124, 49])) := by
  let cursor : GoString := ⟨encodePairCursor [51, 124, 110, 195, 179] [124, 49], by decide⟩
  exact ⟨cursor, rfl, (decodePairCursor_iff cursor).2 _ _ (by decide) (by decide) rfl⟩

/-- The largest `int`, the separator and nothing after it. -/
theorem decodePairCursor_panics : ∃ cursor : GoString, urlAlphabet.decode cursor.bytes =
        some (write 9223372036854775807 ++ [cursorSep]) ∧
      decodePairCursor cursor = .error .panic := by
  let cursor : GoString :=
    ⟨urlAlphabet.encode (write 9223372036854775807 ++ [cursorSep]), by decide⟩
  exact ⟨cursor, urlAlphabet.decode_encode _, by decide⟩

end Kconmon.Console.Cursor
