import Kconmon.Lib.Base64
import Kconmon.Lib.Text
import Mathlib.Data.Nat.Digits.Defs

/-!
# Password hashes and the stamps taken from them

A stored hash is a PHC text: algorithm, version, parameters, salt and key between
dollar signs. A session carries the salt of the hash it was opened on, followed by
the account's epoch once there is one, and is good while the row still gives the same
stamp. The key derivation itself is left open.
-/
namespace Kconmon.Console.Password
open Lib

/-- The key derivation, by password, salt, iterations, memory, parallelism and key length. -/
structure Argon where
  idKey : Text → Bytes → Nat → Nat → Nat → Nat → Bytes
  length_idKey : ∀ plain salt t m p n, (idKey plain salt t m p n).length = n

def argonMemoryKiB : Nat := 19 * 1024
def argonIterations : Nat := 2
def argonParallelism : Nat := 1
def argonSaltBytes : Nat := 16
def argonKeyBytes : Nat := 32
def argonVersion : Nat := 19

def decimal (n : Nat) : Text := Nat.toDigits 10 n

def paramsField (m t p : Nat) : Text :=
  'm' :: '=' :: decimal m ++ ',' :: 't' :: '=' :: decimal t ++ ',' :: 'p' :: '=' :: decimal p

/-- The text of a hash, at the parameters of whichever release wrote it. -/
def phc (m t p : Nat) (salt key : Bytes) : Text :=
  ['$'].intercalate [[], "argon2id".toList, 'v' :: '=' :: decimal argonVersion, paramsField m t p,
    Base64.encode salt, Base64.encode key]

def hashWithSalt (argon : Argon) (plain : Text) (salt : Bytes) : Text :=
  phc argonMemoryKiB argonIterations argonParallelism salt
    (argon.idKey plain salt argonIterations argonMemoryKiB argonParallelism argonKeyBytes)

/-! ## Reading a hash -/

structure PhcParams where
  memory : Nat
  iterations : Nat
  parallelism : Nat
  salt : Bytes
  hash : Bytes
  deriving DecidableEq

inductive MalformedHash where
  | shape
  | version (field : Text)
  | unsupportedVersion (version : Int)
  | parameters (field : Text)
  | parametersOutOfRange (field : Text)
  | iterations
  | parallelism
  | saltNotBase64
  | saltTooShort (length : Nat)
  | hashNotBase64
  | hashTooShort (length : Nat)
  deriving DecidableEq

def minSaltBytes : Nat := 8
def minHashBytes : Nat := 16

/-- What a scan for a number skips first; a line break ends it instead. -/
def isBlank (c : Char) : Bool :=
  let n := c.toNat
  (0x09 ≤ n && n ≤ 0x0d && n != 0x0a) || n = 0x20 || n = 0x85 || n = 0xa0 || n = 0x1680 ||
    (0x2000 ≤ n && n ≤ 0x200a) || n = 0x2028 || n = 0x2029 || n = 0x202f || n = 0x205f || n = 0x3000

/-- Blanks, a sign, digits; what follows the digits is not looked at. -/
def scanInt (text : Text) : Option Int :=
  let (sign, rest) : Int × Text := match text.dropWhile isBlank with
    | '-' :: rest => (-1, rest)
    | '+' :: rest => (1, rest)
    | rest => (1, rest)
  let digits := rest.takeWhile Char.isDigit
  let n : Int := sign * Nat.ofDigitChars 10 digits 0
  if digits = [] ∨ n < -2 ^ 63 ∨ 2 ^ 63 ≤ n then none else some n

def scanVersion : Text → Option Int
  | 'v' :: '=' :: rest => scanInt rest
  | _ => none

/-- One group of the parameter pattern: a letter, an equals sign and digits only. -/
def paramGroup (letter : Char) : Text → Option Nat
  | c :: '=' :: digits =>
    if c = letter ∧ digits ≠ [] ∧ digits.all Char.isDigit then some (Nat.ofDigitChars 10 digits 0)
    else none
  | _ => none

def matchParams (field : Text) : Option (Nat × Nat × Nat) :=
  match field.splitOn ',' with
  | [m, t, p] => do return (← paramGroup 'm' m, ← paramGroup 't' t, ← paramGroup 'p' p)
  | _ => none

def parseVersion (field : Text) : Except MalformedHash Unit :=
  match scanVersion field with
  | none => .error (.version field)
  | some version => if version = argonVersion then .ok () else .error (.unsupportedVersion version)

def parseParams (field : Text) : Except MalformedHash (Nat × Nat × Nat) :=
  match matchParams field with
  | none => .error (.parameters field)
  | some (m, t, p) =>
    if 2 ^ 32 ≤ m ∨ 2 ^ 32 ≤ t ∨ 2 ^ 8 ≤ p then .error (.parametersOutOfRange field)
    else if t = 0 then .error .iterations
    else if p = 0 then .error .parallelism
    else .ok (m, t, p)

/-- The salt and the hash are read the same way. -/
def parseBytes (least : Nat) (notBase64 : MalformedHash) (tooShort : Nat → MalformedHash)
    (field : Text) : Except MalformedHash Bytes :=
  match Base64.decode field with
  | none => .error notBase64
  | some data => if data.length < least then .error (tooShort data.length) else .ok data

def parseSalt : Text → Except MalformedHash Bytes :=
  parseBytes minSaltBytes .saltNotBase64 .saltTooShort

def parseHash : Text → Except MalformedHash Bytes :=
  parseBytes minHashBytes .hashNotBase64 .hashTooShort

def parsePHC (text : Text) : Except MalformedHash PhcParams :=
  match text.splitOn '$' with
  | [first, name, version, params, salt, hash] =>
    if first ≠ [] ∨ name ≠ "argon2id".toList then .error .shape
    else do
      parseVersion version
      let (memory, iterations, parallelism) ← parseParams params
      let salt ← parseSalt salt
      let hash ← parseHash hash
      return { memory, iterations, parallelism, salt, hash }
  | _ => .error .shape

def verifyPassword (argon : Argon) (text plain : Text) : Except MalformedHash Bool := do
  let p ← parsePHC text
  return p.hash = argon.idKey plain p.salt p.iterations p.memory p.parallelism p.hash.length

def needsRehash (text : Text) : Bool :=
  match parsePHC text with
  | .error _ => false
  | .ok p => p.memory ≠ argonMemoryKiB || p.iterations ≠ argonIterations ||
      p.parallelism ≠ argonParallelism || p.hash.length ≠ argonKeyBytes

def rehashPassword (argon : Argon) (text plain : Text) : Except MalformedHash Text := do
  let p ← parsePHC text
  return hashWithSalt argon plain p.salt

/-! ## Stamps -/

/-- Never empty: an empty stamp is not checked. -/
def passwordStamp (text : Text) : Text :=
  match text.splitOn '$' with
  | [_, _, _, _, salt, _] => if salt = [] then ['-'] else salt
  | _ => ['-']

def sessionStamp (text : Text) (epoch : Nat) : Text :=
  if epoch = 0 then passwordStamp text else passwordStamp text ++ '.' :: decimal epoch

/-! ## What is written is read back -/

theorem isDigit_of_mem_decimal {n : Nat} {c : Char} (mem : c ∈ decimal n) : c.isDigit = true :=
  Nat.isDigit_of_mem_toDigits (by decide) (by decide) mem

theorem decimal_injective : Function.Injective decimal := by
  intro a b same
  have := congrArg (fun digits => Nat.ofDigitChars 10 digits 0) same
  simpa only [decimal, Nat.ofDigitChars_ten_toDigits] using this

theorem dollar_notMem_decimal (n : Nat) : '$' ∉ decimal n :=
  fun mem => absurd (isDigit_of_mem_decimal mem) (by decide)

theorem notMem_encode {c : Char} (outside : c ∉ Base64.alphabet) (data : Bytes) :
    c ∉ Base64.encode data := fun mem => outside (Base64.mem_alphabet_of_mem_encode mem)

theorem splitOn_phc (m t p : Nat) (salt key : Bytes) : (phc m t p salt key).splitOn '$' =
      [[], "argon2id".toList, 'v' :: '=' :: decimal argonVersion, paramsField m t p,
        Base64.encode salt, Base64.encode key] := by
  refine List.splitOn_intercalate '$' ?_ (by simp)
  have outside : '$' ∉ Base64.alphabet := by decide
  simp only [List.forall_mem_cons]
  refine ⟨by simp, by decide, by decide, ?_, notMem_encode outside salt, notMem_encode outside key,
    by simp⟩
  simp [paramsField, dollar_notMem_decimal]

variable {salt : Bytes}

theorem passwordStamp_phc (held : salt ≠ []) (m t p : Nat) (key : Bytes) :
    passwordStamp (phc m t p salt key) = Base64.encode salt := by
  rw [passwordStamp, splitOn_phc]
  simp [Base64.encode_ne_nil held]

theorem parseBytes_encode {least : Nat} {notBase64 : MalformedHash} {tooShort : Nat → MalformedHash}
    (data : Bytes) : parseBytes least notBase64 tooShort (Base64.encode data) =
      if data.length < least then .error (tooShort data.length) else .ok data := by
  rw [parseBytes, Base64.decode_encode]

/-- Reading a written hash: the parameters are checked, then the lengths. -/
theorem parsePHC_phc (m t p : Nat) (salt key : Bytes) :
    parsePHC (phc m t p salt key) = (parseParams (paramsField m t p)).bind fun (m, t, p) =>
      if salt.length < minSaltBytes then .error (.saltTooShort salt.length)
      else if key.length < minHashBytes then .error (.hashTooShort key.length)
      else .ok ⟨m, t, p, salt, key⟩ := by
  have version : parseVersion ('v' :: '=' :: decimal argonVersion) = .ok () := by decide
  rw [parsePHC, splitOn_phc]
  simp only [version, parseSalt, parseHash, parseBytes_encode]
  cases parseParams (paramsField m t p) with
  | error e => rfl
  | ok params =>
    by_cases short : salt.length < minSaltBytes
    · simp [short, bind, Except.bind]
    · by_cases weak : key.length < minHashBytes <;>
        simp [short, weak, bind, Except.bind, pure, Except.pure]

/-- Whatever else a written hash holds, its salt is the one read from it. -/
theorem salt_of_parsePHC {m t p : Nat} {key : Bytes} {q : PhcParams}
    (parsed : parsePHC (phc m t p salt key) = .ok q) : q.salt = salt := by
  rw [parsePHC_phc] at parsed
  cases params : parseParams (paramsField m t p) with
  | error e => simp [params, Except.bind] at parsed
  | ok found =>
    simp only [params, Except.bind] at parsed
    split at parsed
    · cases parsed
    · split at parsed <;> cases parsed
      rfl

theorem parsePHC_hashWithSalt (argon : Argon) (plain : Text) (long : minSaltBytes ≤ salt.length) :
    parsePHC (hashWithSalt argon plain salt) = .ok
      { memory := argonMemoryKiB, iterations := argonIterations, parallelism := argonParallelism
        salt, hash := argon.idKey plain salt argonIterations argonMemoryKiB argonParallelism
          argonKeyBytes } := by
  have params : parseParams (paramsField argonMemoryKiB argonIterations argonParallelism) =
      .ok (argonMemoryKiB, argonIterations, argonParallelism) := by decide
  have strong : ¬ argonKeyBytes < minHashBytes := by decide
  rw [hashWithSalt, parsePHC_phc, params]
  simp [Except.bind, argon.length_idKey, Nat.not_lt.mpr long, strong]

/-- Against a hash that was written, exactly the passwords with its key verify; and the hash is not
due for a rehash. -/
theorem verifyPassword_hashWithSalt (argon : Argon) (plain other : Text)
    (long : minSaltBytes ≤ salt.length) :
    let key p := argon.idKey p salt argonIterations argonMemoryKiB argonParallelism argonKeyBytes
    verifyPassword argon (hashWithSalt argon plain salt) other = .ok (key plain = key other) ∧
      needsRehash (hashWithSalt argon plain salt) = false := by
  simp [verifyPassword, needsRehash, parsePHC_hashWithSalt argon plain long, argon.length_idKey,
    bind, Except.bind, pure, Except.pure]

/-- A key that tells passwords apart by their length. -/
def lengthKey : Argon where
  idKey plain _ _ _ _ n := List.replicate n (.ofNat plain.length)
  length_idKey := by simp

theorem verifyPassword_hashWithSalt_lengthKey :
    let hash := hashWithSalt lengthKey "correct".toList (.replicate 16 1)
    verifyPassword lengthKey hash "correct".toList = .ok true ∧
      verifyPassword lengthKey hash "wrong".toList = .ok false ∧ needsRehash hash = false := by
  intro hash
  have long : minSaltBytes ≤ (List.replicate 16 (1 : UInt8)).length := by decide
  obtain ⟨right, fresh⟩ :=
    verifyPassword_hashWithSalt lengthKey "correct".toList "correct".toList long
  obtain ⟨wrong, -⟩ := verifyPassword_hashWithSalt lengthKey "correct".toList "wrong".toList long
  exact ⟨right.trans (by decide), wrong.trans (by decide), fresh⟩

theorem rehashPassword_phc {argon : Argon} {m t p : Nat} {key : Bytes} {plain text : Text}
    (done : rehashPassword argon (phc m t p salt key) plain = .ok text) :
    text = hashWithSalt argon plain salt := by
  rw [rehashPassword] at done
  cases parsed : parsePHC (phc m t p salt key) with
  | error e => simp [parsed, bind, Except.bind] at done
  | ok q =>
    simp only [parsed, bind, Except.bind, pure, Except.pure, Except.ok.injEq] at done
    rw [← done, salt_of_parsePHC parsed]

/-! ## Stamps tell salts and epochs apart -/

def epochSuffix (epoch : Nat) : Text := if epoch = 0 then [] else '.' :: decimal epoch

theorem sessionStamp_eq (text : Text) (epoch : Nat) :
    sessionStamp text epoch = passwordStamp text ++ epochSuffix epoch := by
  unfold sessionStamp epochSuffix
  split <;> simp

theorem passwordStamp_ne_nil (text : Text) : passwordStamp text ≠ [] := by
  unfold passwordStamp
  split
  next =>
    split
    next => simp
    next held => exact held
  next => simp

theorem sessionStamp_ne_nil (text : Text) (epoch : Nat) : sessionStamp text epoch ≠ [] := by
  simp [sessionStamp_eq, passwordStamp_ne_nil]

theorem takeWhile_append_epochSuffix {stamp : Text} (undotted : '.' ∉ stamp) (epoch : Nat) :
    (stamp ++ epochSuffix epoch).takeWhile (· ≠ '.') = stamp := by
  rw [List.takeWhile_append_of_pos]
  · unfold epochSuffix
    split <;> simp
  · intro c mem
    simp only [decide_eq_true_eq]
    rintro rfl
    exact undotted mem

theorem epochSuffix_injective : Function.Injective epochSuffix := by
  intro i j same
  unfold epochSuffix at same
  split at same <;> split at same
  · omega
  · cases same
  · cases same
  · exact decimal_injective (List.cons.inj same).2

/-- A stored hash: the text of some release, with a salt. -/
def Written (text : Text) : Prop := ∃ m t p salt key, salt ≠ [] ∧ text = phc m t p salt key

theorem Written.undotted {text : Text} (written : Written text) : '.' ∉ passwordStamp text := by
  obtain ⟨m, t, p, salt, key, held, rfl⟩ := written
  rw [passwordStamp_phc held]
  exact notMem_encode (by decide) salt

theorem sessionStamp_inj {a b : Text} {i j : Nat} (first : Written a) (second : Written b)
    (same : sessionStamp a i = sessionStamp b j) : passwordStamp a = passwordStamp b ∧ i = j := by
  rw [sessionStamp_eq, sessionStamp_eq] at same
  have stamps : passwordStamp a = passwordStamp b := by
    have := congrArg (List.takeWhile (· ≠ '.')) same
    rwa [takeWhile_append_epochSuffix first.undotted, takeWhile_append_epochSuffix second.undotted]
      at this
  rw [stamps] at same
  exact ⟨stamps, epochSuffix_injective (List.append_cancel_left same)⟩

theorem written_hashWithSalt (argon : Argon) (plain : Text) (held : salt ≠ []) :
    Written (hashWithSalt argon plain salt) := ⟨_, _, _, salt, _, held, rfl⟩

theorem passwordStamp_hashWithSalt (argon : Argon) (plain : Text) (held : salt ≠ []) :
    passwordStamp (hashWithSalt argon plain salt) = Base64.encode salt :=
  passwordStamp_phc held _ _ _ _

/-- A rehash keeps the stamp. -/
theorem Written.rehash {argon : Argon} {old plain new : Text} (written : Written old)
    (done : rehashPassword argon old plain = .ok new) :
    Written new ∧ passwordStamp new = passwordStamp old := by
  obtain ⟨m, t, p, salt, key, held, rfl⟩ := written
  obtain rfl := rehashPassword_phc done
  refine ⟨written_hashWithSalt argon plain held, ?_⟩
  rw [passwordStamp_hashWithSalt argon plain held, passwordStamp_phc held]

end Kconmon.Console.Password
