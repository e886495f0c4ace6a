import Mathlib.Data.List.GetD
import Mathlib.Data.List.Nodup

/-!
# Base64 without padding

The standard alphabet, six bits to a character. The decoder skips line breaks and
does not look at the bits a short last group leaves over, so it accepts more texts
than the encoder writes; what the encoder writes it reads back.
-/
namespace Kconmon.Lib.Base64

/-- Characters in a row, from a first one on. -/
def row (first : Char) (n : Nat) : List Char :=
  (List.range n).map fun i => Char.ofNat (first.toNat + i)

def alphabet : List Char := row 'A' 26 ++ row 'a' 26 ++ row '0' 10 ++ ['+', '/']

def sextets : List UInt8 → List Nat
  | a :: b :: c :: rest =>
    a.toNat / 4 :: (a.toNat % 4 * 16 + b.toNat / 16) :: (b.toNat % 16 * 4 + c.toNat / 64) ::
      c.toNat % 64 :: sextets rest
  | [a, b] => [a.toNat / 4, a.toNat % 4 * 16 + b.toNat / 16, b.toNat % 16 * 4]
  | [a] => [a.toNat / 4, a.toNat % 4 * 16]
  | [] => []

/-- A single character left over holds no byte. -/
def bytes : List Nat → Option (List UInt8)
  | w :: x :: y :: z :: rest => (bytes rest).map fun tail =>
    .ofNat (w * 4 + x / 16) :: .ofNat (x % 16 * 16 + y / 4) :: .ofNat (y % 4 * 64 + z) :: tail
  | [w, x, y] => some [.ofNat (w * 4 + x / 16), .ofNat (x % 16 * 16 + y / 4)]
  | [w, x] => some [.ofNat (w * 4 + x / 16)]
  | [_] => none
  | [] => some []

def isBreak (c : Char) : Bool := c = '\r' || c = '\n'

/-! ## Reading back -/

theorem sextets_lt (data : List UInt8) : ∀ n ∈ sextets data, n < 64 := by
  induction data using sextets.induct with
  | case1 a b c rest ih =>
    have := a.toNat_lt
    have := b.toNat_lt
    have := c.toNat_lt
    simp only [sextets, List.forall_mem_cons]
    exact ⟨by omega, by omega, by omega, by omega, ih⟩
  | case2 a b =>
    have := a.toNat_lt
    have := b.toNat_lt
    simp only [sextets, List.forall_mem_cons]
    exact ⟨by omega, by omega, by omega, by simp⟩
  | case3 a =>
    have := a.toNat_lt
    simp only [sextets, List.forall_mem_cons]
    exact ⟨by omega, by omega, by simp⟩
  | case4 => simp [sextets]

variable {n : Nat}

theorem ofNat_eq {a : UInt8} (h : n = a.toNat) : UInt8.ofNat n = a := by
  rw [h, UInt8.ofNat_toNat]

theorem bytes_sextets (data : List UInt8) : bytes (sextets data) = some data := by
  induction data using sextets.induct with
  | case1 a b c rest ih =>
    have := b.toNat_lt
    have := c.toNat_lt
    simp only [sextets, bytes, ih, Option.map_some, Option.some.injEq, List.cons.injEq, and_true]
    exact ⟨ofNat_eq (by omega), ofNat_eq (by omega), ofNat_eq (by omega)⟩
  | case2 a b =>
    have := b.toNat_lt
    simp only [sextets, bytes, Option.some.injEq, List.cons.injEq, and_true]
    exact ⟨ofNat_eq (by omega), ofNat_eq (by omega)⟩
  | case3 a =>
    simp only [sextets, bytes, Option.some.injEq, List.cons.injEq, and_true]
    exact ofNat_eq (by omega)
  | case4 => rfl

variable {data : List UInt8}

theorem length_bytes (l : List Nat) (read : bytes l = some data) : data.length ≤ l.length := by
  induction l using bytes.induct generalizing data with
  | case1 w x y z rest ih =>
    obtain ⟨tail, rest_read, rfl⟩ := Option.map_eq_some_iff.mp read
    have shorter := ih rest_read
    simp only [List.length_cons]
    omega
  | case2 w x y => simp [← Option.some.inj read]
  | case3 w x => simp [← Option.some.inj read]
  | case4 w => cases read
  | case5 => simp [← Option.some.inj read]

theorem length_mapM {α β : Type*} {f : α → Option β} {l : List α} {l' : List β}
    (mapped : l.mapM f = some l') : l'.length = l.length := by
  induction l generalizing l' with
  | nil =>
    obtain rfl : [] = l' := by simpa using mapped
    rfl
  | cons x l ih =>
    rw [List.mapM_cons] at mapped
    obtain ⟨y, -, mapped⟩ := Option.bind_eq_some_iff.mp mapped
    obtain ⟨ys, rest, mapped⟩ := Option.bind_eq_some_iff.mp mapped
    cases mapped
    simp [ih rest]

/-- Sixty-four symbols, and others that a decoder skips. -/
structure Alphabet (σ : Type*) where
  symbols : List σ
  skips : σ → Bool
  length : symbols.length = 64
  nodup : symbols.Nodup
  kept : ∀ c ∈ symbols, skips c = false

namespace Alphabet
variable {σ : Type*} [DecidableEq σ] [Inhabited σ] (a : Alphabet σ)

def symbol (sextet : Nat) : σ := a.symbols.getD sextet default

def encode (data : List UInt8) : List σ := (sextets data).map a.symbol

def decode (text : List σ) : Option (List UInt8) :=
  ((text.filter fun c => !a.skips c).mapM (a.symbols.idxOf? ·)).bind bytes

omit [DecidableEq σ] in
theorem symbol_mem (small : n < 64) : a.symbol n ∈ a.symbols := by
  have bound : n < a.symbols.length := by rwa [a.length]
  rw [symbol, List.getD_eq_getElem _ _ bound]
  exact List.getElem_mem bound

theorem idxOf_symbol (small : n < 64) : a.symbols.idxOf? (a.symbol n) = some n := by
  have bound : n < a.symbols.length := by rwa [a.length]
  rw [symbol, List.getD_eq_getElem _ _ bound, List.idxOf?_eq_some_iff]
  refine ⟨bound, rfl, fun i before same => ?_⟩
  have equal := (List.Nodup.getElem_inj_iff a.nodup).mp same
  omega

theorem mapM_symbol {l : List Nat} (small : ∀ n ∈ l, n < 64) :
    (l.map a.symbol).mapM (a.symbols.idxOf? ·) = some l := by
  induction l with
  | nil => rfl
  | cons n l ih =>
    obtain ⟨head, tail⟩ := List.forall_mem_cons.mp small
    simp [List.mapM_cons, a.idxOf_symbol head, ih tail]

theorem decode_encode (data : List UInt8) : a.decode (a.encode data) = some data := by
  have unbroken : (a.encode data).filter (fun c => !a.skips c) = a.encode data := by
    refine List.filter_eq_self.mpr fun c mem => ?_
    obtain ⟨n, held, rfl⟩ := List.mem_map.mp mem
    simp [a.kept _ (a.symbol_mem (sextets_lt data n held))]
  rw [decode, unbroken, encode, a.mapM_symbol (sextets_lt data)]
  exact bytes_sextets data

omit [Inhabited σ] in
theorem length_decode {text : List σ} (read : a.decode text = some data) :
    data.length ≤ text.length := by
  obtain ⟨l, known, read⟩ := Option.bind_eq_some_iff.mp read
  have same := length_mapM known
  have filtered := List.length_filter_le (fun c => !a.skips c) text
  have shorter := length_bytes l read
  omega

end Alphabet

def standard : Alphabet Char where
  symbols := alphabet
  skips := isBreak
  length := by decide
  nodup := by decide
  kept := by
    have all : alphabet.all fun c => !isBreak c := by decide
    simpa using all

def encode (data : List UInt8) : List Char := standard.encode data

def decode (text : List Char) : Option (List UInt8) := standard.decode text

theorem mem_alphabet_of_mem_encode {c : Char} (mem : c ∈ encode data) : c ∈ alphabet := by
  obtain ⟨n, held, rfl⟩ := List.mem_map.mp mem
  exact standard.symbol_mem (sextets_lt data n held)

theorem decode_encode (data : List UInt8) : decode (encode data) = some data :=
  standard.decode_encode data

theorem encode_injective : Function.Injective encode := by
  intro a b same
  have := congrArg decode same
  rw [decode_encode, decode_encode] at this
  exact Option.some.inj this

theorem encode_ne_nil (held : data ≠ []) : encode data ≠ [] := fun h => held (encode_injective h)

end Kconmon.Lib.Base64
