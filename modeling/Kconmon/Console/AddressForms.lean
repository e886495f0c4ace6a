import Kconmon.Console.ImportRules
import Kconmon.Lib.Search

/-!
# The forms of an address

An address that is not a URL is a host name, an IP literal, or one of them with a port. The page
checks it before it is sent, the server when it arrives. Each has its own grammar for the literals:
the page's is written out by hand, the server's is that of `netip.ParseAddr`.

Texts are lists of characters. A character outside the basic plane counts twice for the page and up
to four times for the server.
-/
namespace Kconmon.Console.Address
open Lib

def isHex (c : Char) : Bool := c.isDigit || 'a' ≤ c && c ≤ 'f' || 'A' ≤ c && c ≤ 'F'

def isWord (c : Char) : Bool := c.isAlphanum || c = '_'

/-- `^[A-Za-z0-9_]([A-Za-z0-9_-]*[A-Za-z0-9_])?$` -/
def hostLabel (l : Text) : Bool :=
  l.head?.any isWord && l.getLast?.any isWord && l.all fun c => isWord c || c = '-'

/-- One pair of surrounding brackets is taken off. -/
def unbracket (host : Text) : Text :=
  if host.length > 1 ∧ host.head? = some '[' ∧ host.getLast? = some ']' then
    (host.drop 1).dropLast
  else host

/-- One trailing dot is taken off. -/
def trimDot (host : Text) : Text := if host.getLast? = some '.' then host.dropLast else host

def decimal (digits : Text) : Nat := Nat.ofDigitChars 10 digits 0

/-- Up to three decimal digits that make a byte. -/
def isOctet (p : Text) : Bool :=
  1 ≤ p.length && p.length ≤ 3 && p.all Char.isDigit && decimal p ≤ 255

/-- One to four hexadecimal digits. -/
def isGroup (g : Text) : Bool := 1 ≤ g.length && g.length ≤ 4 && g.all isHex

def hostnameMaxLen : Nat := 253
def hostLabelMaxLen : Nat := 63
def addressMaxLen : Nat := 2048

/-- Lower case, as far as a letter of `http` can come of it. -/
def isURL (value : Text) : Bool := "http://".toList.isPrefixOf (value.map Char.toLower) ||
    "https://".toList.isPrefixOf (value.map Char.toLower)

/-! ## The page -/

namespace Page

def length : Text → Nat
  | [] => 0
  | c :: s => (if c.toNat < 0x10000 then 1 else 2) + length s

/-- What `trim` takes off: all that is space to the server except U+0085, and U+FEFF. -/
def isSpace (c : Char) : Bool := Lib.isSpace c && c.toNat ≠ 0x85 || c.toNat = 0xFEFF

def trim (s : Text) : Text := strip isSpace s

def isIPv4Dotted (s : Text) : Bool :=
  let parts := s.splitOn '.'
  parts.length = 4 && parts.all isOctet

/-- The groups on the two sides of the `::` at `dc`, or all of them. -/
def groups (s : Text) (dc : Option Nat) : List Text × List Text :=
  match dc with
  | none => (s.splitOn ':', [])
  | some dc =>
    let before := s.take dc
    let after := s.drop (dc + 2)
    (if before = [] then [] else before.splitOn ':', if after = [] then [] else after.splitOn ':')

/-- The last group may be a dotted quad, which stands for two. -/
def fits (compressed : Bool) (groups : List Text) : Bool :=
  let dotted := groups.getLast?.any (·.contains '.')
  if dotted && !groups.getLast?.any isIPv4Dotted then false
  else
    let total := if dotted then groups.length + 1 else groups.length
    let hexGroups := if dotted then groups.dropLast else groups
    hexGroups.all isGroup && if compressed then total < 8 else total = 8

/-- A literal whose zone is cut off. -/
def isIPv6Address (s : Text) : Bool :=
  let dc := indexOf [':', ':'] s
  if !s.contains ':' then false
  else if dc ≠ lastIndexOf [':', ':'] s then false
  else
    let (head, tail) := groups s dc
    if head.contains [] || tail.contains [] then false
    else fits dc.isSome (head ++ tail)

def isIPv6Literal (host : Text) : Bool :=
  match indexOf ['%'] host with
  | none => isIPv6Address host
  | some zone => if zone = host.length - 1 then false else isIPv6Address (host.take zone)

def isIPLiteral (host : Text) : Bool :=
  let bare := unbracket host
  if bare = [] then false else isIPv4Dotted bare || isIPv6Literal bare

def isHostname (host : Text) : Bool :=
  if host = [] ∨ length host > hostnameMaxLen then false
  else
    ((trimDot host).splitOn '.').all fun l =>
      0 < length l && length l ≤ hostLabelMaxLen && hostLabel l

def splitHostPort (hostport : Text) : Option (Text × Text) :=
  match lastIndexOf [':'] hostport with
  | none => none
  | some i =>
    if hostport.head? = some '[' then
      match indexOf [']'] hostport with
      | none => none
      | some e =>
        if e + 1 = hostport.length then none
        else if e + 1 ≠ i then none
        else if (hostport.drop 1).contains '[' then none
        else if (hostport.drop (e + 1)).contains ']' then none
        else some ((hostport.take e).drop 1, hostport.drop (i + 1))
    else
      let host := hostport.take i
      if host.contains ':' then none
      else if hostport.contains '[' || hostport.contains ']' then none
      else some (host, hostport.drop (i + 1))

/-- Comparing the rounded number with the bounds is comparing the number. -/
def isDecimalPort (p : Text) : Bool :=
  if p = [] ∨ !p.all Char.isDigit then false
  else
    let n := decimal p
    n ≥ 1 && n ≤ 65535

def isHost (value : Text) : Bool :=
  match splitHostPort value with
  | some (host, port) => if !isDecimalPort port then false else isIPLiteral host || isHostname host
  | none => isIPLiteral value || isHostname value

/-- `hasHost` tells whether the browser's URL parser finds a host. -/
def isValidAdhocAddress (hasHost : Text → Bool) (raw : Text) : Bool :=
  let value := trim raw
  if value = [] then false
  else if isURL value then hasHost value
  else isHost value

end Page

/-! ## The server -/

/-- Bytes of the text. -/
def length : Text → Nat
  | [] => 0
  | c :: s => c.utf8Size + length s

def trimSpace (s : Text) : Text := (Import.trimSpace (String.ofList s)).toList

/-- What `net.SplitHostPort` finds wrong. -/
inductive SplitError where
  | missingPort
  | tooManyColons
  | missingBracket
  | unexpectedOpening
  | unexpectedClosing
  deriving DecidableEq

/-- The host before the last colon, and from where on there must not be a `[` or a `]`. -/
def findHost (hostport : Text) (i : Nat) : Except SplitError (Text × Nat × Nat) :=
  if hostport.head? = some '[' then
    match indexOf [']'] hostport with
    | none => .error .missingBracket
    | some e =>
      if e + 1 = hostport.length then .error .missingPort
      else if e + 1 = i then .ok ((hostport.take e).drop 1, 1, e + 1)
      else if hostport[e + 1]? = some ':' then .error .tooManyColons
      else .error .missingPort
  else if (hostport.take i).contains ':' then .error .tooManyColons
  else .ok (hostport.take i, 0, 0)

/-- `net.SplitHostPort` -/
def splitHostPort (hostport : Text) : Except SplitError (Text × Text) :=
  match lastIndexOf [':'] hostport with
  | none => .error .missingPort
  | some i =>
    match findHost hostport i with
    | .error e => .error e
    | .ok (host, j, k) =>
      if (hostport.drop j).contains '[' then .error .unexpectedOpening
      else if (hostport.drop k).contains ']' then .error .unexpectedClosing
      else .ok (host, hostport.drop (i + 1))

/-- `strconv.ParseUint` in base ten, for 16 bits -/
def parseUint (p : Text) : Option Nat :=
  if p = [] ∨ !p.all Char.isDigit then none
  else if decimal p ≤ 0xFFFF then some (decimal p) else none

/-- A byte in decimal that is written without leading zeros. -/
def isPlainOctet (p : Text) : Bool := isOctet p && !(1 < p.length && p.head? = some '0')

def isIPv4 (s : Text) : Bool := (s.splitOn '.').length = 4 && (s.splitOn '.').all isPlainOctet

/-- The 16-bit units of groups that end the text, if they are well formed: the last one may be an
IPv4 address, which is two units. -/
def units : List Text → Option Nat
  | [] => some 0
  | [g] => if isGroup g then some 1 else if isIPv4 g then some 2 else none
  | g :: gs => if isGroup g then (units gs).map (· + 1) else none

/-- No groups for an empty text. -/
def fields (s : Text) : List Text := if s = [] then [] else s.splitOn ':'

/-- Eight units, or fewer around one `::`. -/
def isIPv6 (s : Text) : Bool :=
  match indexOf [':', ':'] s with
  | none => units (fields s) = some 8
  | some i =>
    let before := fields (s.take i)
    before.all isGroup && (units (fields (s.drop (i + 2)))).any (before.length + · < 8)

/-- Whether `netip.ParseAddr` succeeds: an IPv4 address, or an IPv6 address with or without a
zone. -/
def parseAddr (s : Text) : Bool := isIPv4 s ||
    match indexOf ['%'] s with
    | none => isIPv6 s
    | some i => s.drop (i + 1) ≠ [] && isIPv6 (s.take i)

def isIPLiteral (host : Text) : Bool := parseAddr (unbracket host)

def isHostname (host : Text) : Bool :=
  if host = [] ∨ length host > hostnameMaxLen then false
  else
    ((trimDot host).splitOn '.').all fun l =>
      !(l = [] || length l > hostLabelMaxLen || !hostLabel l)

/-! ### Errors

`quote` is the verb `%q` of the formatter. -/

inductive HostError where
  | noUsablePort
  | notAHost
  deriving DecidableEq

def HostError.message (quote : Text → Text) (field address : Text) : HostError → Text
  | .noUsablePort =>
    field ++ ' ' :: quote address ++ " has no usable port; a port must be 1-65535".toList
  | .notAHost => field ++ ' ' :: quote address ++ " must be a host, an IP, or host:port".toList

inductive AddressError where
  | blank
  | tooLong (bytes : Nat)
  | invalidURL
  | noUsablePort
  | notAHost
  deriving DecidableEq

def addressField : Text := "destination address".toList

def AddressError.message (quote : Text → Text) (address : Text) : AddressError → Text
  | .blank => addressField ++ " must not be blank".toList
  | .tooLong bytes =>
    addressField ++ " is ".toList ++ (toString bytes).toList ++ " bytes, limit is ".toList ++
      (toString addressMaxLen).toList
  | .invalidURL =>
    addressField ++ ' ' :: quote address ++ " is not a valid http(s) URL".toList
  | .noUsablePort =>
    addressField ++ ' ' :: quote address ++ " has no usable port; a port must be 1-65535".toList
  | .notAHost =>
    addressField ++ ' ' :: quote address ++
      " must be a host, an IP, host:port, or an http(s) URL".toList

/-! ### The checks -/

def validateHostAddress (address : Text) : Except HostError Unit :=
  let value := trimSpace address
  match splitHostPort value with
  | .ok (host, port) =>
    match parseUint port with
    | none | some 0 => .error .noUsablePort
    | some _ => if isIPLiteral host || isHostname host then .ok () else .error .notAHost
  | .error _ => if isIPLiteral value || isHostname value then .ok () else .error .notAHost

/-- `hasHost` tells whether `url.Parse` finds an http(s) URL with a host. What was wrong with a host
is read off the text of the error, which quotes the address. -/
def validateAdhocAddress (hasHost : Text → Bool) (quote : Text → Text) (address : Text) :
    Except AddressError Unit :=
  let value := trimSpace address
  if value = [] then .error .blank
  else if length value > addressMaxLen then .error (.tooLong (length value))
  else if isURL value then if hasHost value then .ok () else .error .invalidURL
  else
    match validateHostAddress value with
    | .ok () => .ok ()
    | .error reason =>
      if (indexOf "usable port".toList (reason.message quote addressField value)).isSome then
        .error .noUsablePort
      else .error .notAHost

/-! ## What the two have in common -/

theorem toOption_splitHostPort (t : Text) : (splitHostPort t).toOption = Page.splitHostPort t := by
  rw [splitHostPort, Page.splitHostPort]
  cases lastIndexOf [':'] t with
  | none => rfl
  | some i =>
    dsimp only
    rw [findHost]
    by_cases bracketed : t.head? = some '['
    · simp only [bracketed, if_true]
      cases indexOf [']'] t with
      | none => rfl
      | some e => grind [Except.toOption]
    · grind [Except.toOption]

theorem isDecimalPort_eq (p : Text) : Page.isDecimalPort p = (parseUint p).any (· ≠ 0) := by
  rw [Page.isDecimalPort, parseUint]
  grind

/-! ### Characters -/

/-- A visible character of ASCII. -/
def Plain (c : Char) : Prop := 0x21 ≤ c.toNat ∧ c.toNat ≤ 0x7E

instance (c : Char) : Decidable (Plain c) := inferInstanceAs (Decidable (_ ∧ _))

variable {c : Char}

theorem plain_of_isDigit (digit : c.isDigit = true) : Plain c := by
  simp only [Char.isDigit, Bool.and_eq_true, decide_eq_true_eq, ge_iff_le,
    UInt32.le_iff_toNat_le] at digit
  change 48 ≤ c.toNat ∧ c.toNat ≤ 57 at digit
  unfold Plain
  omega

theorem plain_of_isWord (word : isWord c = true) : Plain c := by
  delta isWord Char.isAlphanum Char.isAlpha Char.isUpper Char.isLower Char.isDigit at word
  simp only [Bool.or_eq_true, Bool.and_eq_true, decide_eq_true_eq, ge_iff_le,
    UInt32.le_iff_toNat_le] at word
  change (((65 ≤ c.toNat ∧ c.toNat ≤ 90) ∨ (97 ≤ c.toNat ∧ c.toNat ≤ 122)) ∨
    (48 ≤ c.toNat ∧ c.toNat ≤ 57)) ∨ c = '_' at word
  rcases word with word | rfl
  · unfold Plain
    omega
  · decide

theorem plain_of_isHex (hex : isHex c = true) : Plain c := by
  simp only [isHex, Bool.or_eq_true, Bool.and_eq_true, decide_eq_true_eq, Char.le_def,
    UInt32.le_iff_toNat_le] at hex
  rcases hex with (digit | lower) | upper
  · exact plain_of_isDigit digit
  · change 97 ≤ c.toNat ∧ c.toNat ≤ 102 at lower
    unfold Plain
    omega
  · change 65 ≤ c.toNat ∧ c.toNat ≤ 70 at upper
    unfold Plain
    omega

/-- Of ASCII text the page and the server count the characters. -/
theorem length_of_plain {s : Text} (plain : ∀ c ∈ s, Plain c) :
    Page.length s = s.length ∧ length s = s.length := by
  induction s with
  | nil => exact ⟨rfl, rfl⟩
  | cons c s ih =>
    obtain ⟨page, server⟩ := ih fun d mem => plain d (List.mem_cons_of_mem c mem)
    have small := (plain c List.mem_cons_self).2
    have single : c.utf8Size = 1 := Char.utf8Size_eq_one_iff.mpr (by
      rw [UInt32.le_iff_toNat_le]
      change c.toNat ≤ 127
      omega)
    have basic : c.toNat < 0x10000 := by omega
    constructor
    · simp [Page.length, basic, page, Nat.add_comm]
    · simp [length, single, server, Nat.add_comm]

/-- A character of a host name. -/
def isNameChar (c : Char) : Bool := isWord c || c = '-' || c = '.'

theorem plain_of_isNameChar (name : isNameChar c = true) : Plain c := by
  simp only [isNameChar, Bool.or_eq_true, decide_eq_true_eq] at name
  rcases name with (word | rfl) | rfl
  · exact plain_of_isWord word
  · decide
  · decide

theorem isNameChar_of_hostLabel {l : Text} (label : hostLabel l = true) :
    ∀ c ∈ l, isNameChar c = true := by
  intro c mem
  simp only [hostLabel, Bool.and_eq_true, List.all_eq_true] at label
  simp [isNameChar, label.2 c mem]

variable {host : Text}

theorem mem_trimDot_or (mem : c ∈ host) : c ∈ trimDot host ∨ c = '.' := by
  rw [trimDot]
  split
  case isTrue dotted =>
    have whole := List.dropLast_append_getLast? '.' dotted
    rw [← whole] at mem
    simpa using mem
  case isFalse => exact .inl mem

theorem isNameChar_of_labels (named : ((trimDot host).splitOn '.').all (fun l =>
    !(l = [] || length l > hostLabelMaxLen || !hostLabel l)) = true) :
    ∀ c ∈ host, isNameChar c = true := by
  intro c mem
  by_cases dot : c = '.'
  · simp [isNameChar, dot]
  · obtain ⟨l, listed, inside⟩ := exists_mem_splitOn ((mem_trimDot_or mem).resolve_right dot) dot
    have label := List.all_eq_true.mp named l listed
    exact isNameChar_of_hostLabel (by grind) c inside

/-- The page and the server know the same host names. -/
theorem isHostname_eq (host : Text) : Page.isHostname host = isHostname host := by
  have labels : ((trimDot host).splitOn '.').all (fun l =>
      0 < Page.length l && Page.length l ≤ hostLabelMaxLen && hostLabel l) =
      ((trimDot host).splitOn '.').all fun l =>
        !(l = [] || length l > hostLabelMaxLen || !hostLabel l) := by
    congr 1
    funext l
    by_cases label : hostLabel l = true
    · obtain ⟨page, server⟩ := length_of_plain fun c mem =>
        plain_of_isNameChar (isNameChar_of_hostLabel label c mem)
      grind
    · simp [label]
  rw [Page.isHostname, isHostname, labels]
  by_cases named : ((trimDot host).splitOn '.').all (fun l =>
      !(l = [] || length l > hostLabelMaxLen || !hostLabel l)) = true
  · obtain ⟨page, server⟩ := length_of_plain fun c mem =>
      plain_of_isNameChar (isNameChar_of_labels named c mem)
    rw [page, server]
  · rw [Bool.not_eq_true] at named
    rw [named, ite_self, ite_self]

theorem isNameChar_of_isHostname (named : isHostname host = true) :
    host ≠ [] ∧ ∀ c ∈ host, isNameChar c = true := by
  rw [isHostname] at named
  split at named
  case isTrue => cases named
  case isFalse bounds => exact ⟨fun empty => bounds (.inl empty), isNameChar_of_labels named⟩

/-- A host stands at the start of the text, unless that is a bracket. -/
theorem split_of_splitHostPort {t port : Text} (split : Page.splitHostPort t = some (host, port)) :
    t.head? = some '[' ∨ ∃ rest, t = host ++ rest := by
  by_cases bracketed : t.head? = some '['
  · exact .inl bracketed
  · rw [Page.splitHostPort] at split
    cases last : lastIndexOf [':'] t with
    | none => simp [last] at split
    | some i =>
      have part : host = t.take i := by grind
      exact .inr ⟨t.drop i, by rw [part, List.take_append_drop]⟩

end Kconmon.Console.Address
