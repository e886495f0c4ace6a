import Kconmon.Console.AddressLiterals

/-!
# What the page accepts and the server refuses

The page trims and judges an address before it is sent, and must not accept one that the server
refuses. It does accept some: literals with leading zeros in a dotted quad or with a quad before a
final `::`, addresses that are too long, and texts with a character at an end that only one of the
two takes for a space.
-/
namespace Kconmon.Console.Address
open Lib

/-! ## One rule, two grammars -/

/-- The host of a text, without its port. -/
def hostPart (t : Text) : Text :=
  match Page.splitHostPort t with
  | some (host, _) => host
  | none => t

/-- A host by the rule `ip` for literals, with or without a port. -/
def takes (ip : Text → Bool) (t : Text) : Bool :=
  match Page.splitHostPort t with
  | some (host, port) => Page.isDecimalPort port && (ip host || isHostname host)
  | none => ip t || isHostname t

theorem isHost_eq (t : Text) : Page.isHost t = takes Page.isIPLiteral t := by
  rw [Page.isHost, takes]
  cases Page.splitHostPort t with
  | none => simp [isHostname_eq]
  | some split =>
    obtain ⟨host, port⟩ := split
    cases Page.isDecimalPort port <;> simp [isHostname_eq]

theorem validateHostAddress_iff (address : Text) :
    validateHostAddress address = .ok () ↔ takes isIPLiteral (trimSpace address) = true := by
  rw [validateHostAddress, takes, ← toOption_splitHostPort]
  cases splitHostPort (trimSpace address) with
  | error e =>
    simp only [Except.toOption]
    split <;> simp_all
  | ok split =>
    obtain ⟨host, port⟩ := split
    simp only [Except.toOption, isDecimalPort_eq]
    cases parseUint port with
    | none => simp
    | some n =>
      cases n with
      | zero => simp
      | succ n => cases isIPLiteral host <;> simp

/-- On one text the server's rule is the page's for plain hosts. -/
theorem takes_iff (t : Text) : takes isIPLiteral t = true ↔
    takes Page.isIPLiteral t = true ∧ PlainHost (hostPart t) := by
  rw [takes, takes, hostPart]
  cases Page.splitHostPort t with
  | none => exact host_iff
  | some split =>
    obtain ⟨host, port⟩ := split
    simp only [Bool.and_eq_true, host_iff, and_assoc]

/-! ## The start of an address -/

theorem head_of_address {s : Text} (address : Page.isIPv6Address (addressPart s) = true) :
    ∃ c, s.head? = some c ∧ Plain c := by
  have some_char := List.ne_nil_of_mem (page_isIPv6_iff.mp address).1
  obtain ⟨rest, whole⟩ := addressPart_prefix s
  refine ⟨_, ?_, plain_of_isIPv6 address (List.head_mem some_char)⟩
  conv_lhs => rw [← whole]
  rw [List.head?_append_of_ne_nil _ some_char, List.head?_eq_some_head some_char]

theorem host_head {host : Text} (accepted : (Page.isIPLiteral host || isHostname host) = true) :
    ∃ c, host.head? = some c ∧ Plain c := by
  rw [Bool.or_eq_true, page_isIPLiteral_iff] at accepted
  by_cases bracketed : host.length > 1 ∧ host.head? = some '[' ∧ host.getLast? = some ']'
  · exact ⟨'[', bracketed.2.1, by decide⟩
  have bare : unbracket host = host := if_neg bracketed
  rw [bare] at accepted
  rcases accepted with (quad | six) | named
  · have some_char := List.ne_nil_of_mem (dot_mem_of_isIPv4Dotted quad)
    exact ⟨_, List.head?_eq_some_head some_char, plain_of_isIPv4Dotted quad (List.head_mem _)⟩
  · exact head_of_address (page_isIPv6Address_addressPart six)
  · obtain ⟨some_char, chars⟩ := isNameChar_of_isHostname named
    exact ⟨_, List.head?_eq_some_head some_char, plain_of_isNameChar (chars _ (List.head_mem _))⟩

variable {t : Text}

/-- An address starts with a visible character. -/
theorem takes_head (taken : takes Page.isIPLiteral t = true) : ∃ c, t.head? = some c ∧ Plain c := by
  rw [takes] at taken
  cases split : Page.splitHostPort t with
  | none =>
    rw [split] at taken
    exact host_head taken
  | some parts =>
    obtain ⟨host, port⟩ := parts
    rw [split] at taken
    rcases split_of_splitHostPort split with bracketed | ⟨rest, rfl⟩
    · exact ⟨'[', bracketed, by decide⟩
    · obtain ⟨c, first, visible⟩ := host_head (Bool.and_eq_true_iff.mp taken).2
      exact ⟨c, by simp [List.head?_append, first], visible⟩

/-! ## What is trimmed -/

theorem trimSpace_eq (s : Text) : trimSpace s = strip isSpace s := by
  simp [trimSpace, Import.trimSpace, strip]

variable {c : Char}

theorem not_isSpace_of_plain (plain : Plain c) : isSpace c = false := by
  obtain ⟨low, high⟩ := plain
  simp only [isSpace, List.contains_eq_mem, List.mem_cons, List.not_mem_nil, or_false,
    Bool.or_eq_false_iff, decide_eq_false_iff_not, Bool.and_eq_false_iff]
  omega

theorem not_plain_of_isSpace (space : isSpace c = true) : ¬Plain c := fun plain => by
  simp [not_isSpace_of_plain plain] at space

theorem not_plain_of_page_isSpace (space : Page.isSpace c = true) : ¬Plain c := by
  simp only [Page.isSpace, Bool.or_eq_true, Bool.and_eq_true, decide_eq_true_eq] at space
  rcases space with ⟨space, -⟩ | mark
  · exact not_plain_of_isSpace space
  · unfold Plain
    omega

/-- Of a text that starts visibly behind invisible characters, these are what is dropped. -/
theorem dropWhile_to_plain {l s : Text} (hidden : ∀ d ∈ l, ¬Plain d) (first : s.head? = some c)
    (visible : Plain c) : (l ++ s).dropWhile (fun d => ¬Plain d) = s := by
  obtain ⟨rest, rfl⟩ := List.head?_eq_some_iff.mp first
  rw [List.dropWhile_append_of_pos (by simpa using hidden),
    List.dropWhile_cons_of_neg (by simpa using visible)]

/-! ## URLs -/

theorem toLower_of_not_plain (hidden : ¬Plain c) : c.toLower = c := by
  delta Char.toLower
  rw [dif_neg]
  rintro ⟨low, high⟩
  exact hidden ⟨by change 65 ≤ c.toNat at low; omega, by change c.toNat ≤ 90 at high; omega⟩

/-- Spaces after a text do not make a visible start of it. -/
theorem start_of_append {start rest : Text} (visible : ∀ c ∈ start, Plain c)
    (spaces : ∀ c ∈ rest, Page.isSpace c = true) (starts : start <+: (t ++ rest).map Char.toLower) :
    start <+: t.map Char.toLower := by
  obtain ⟨more, whole⟩ := starts
  rw [List.map_append] at whole
  rcases List.append_eq_append_iff.mp whole with ⟨a, within, -⟩ | ⟨a, beyond, cut⟩
  · exact ⟨a, within.symm⟩
  · cases a with
    | nil => exact ⟨[], by simp [beyond]⟩
    | cons d a =>
      have mem : d ∈ rest.map Char.toLower := by simp [cut]
      obtain ⟨e, listed, rfl⟩ := List.mem_map.mp mem
      have hidden := not_plain_of_page_isSpace (spaces e listed)
      rw [toLower_of_not_plain hidden] at beyond
      exact absurd (visible e (by simp [beyond])) hidden

theorem head_of_isURL (url : isURL t = true) : ∃ c, t.head? = some c ∧ Plain c := by
  cases t with
  | nil => exact absurd url (by decide)
  | cons c t =>
    refine ⟨c, rfl, ?_⟩
    by_contra hidden
    have other : 'h' ≠ c := by rintro rfl; exact hidden (by decide)
    simp [isURL, List.isPrefixOf, toLower_of_not_plain hidden, other] at url

/-- What is a URL to the server is one to the page, where that sees a visible start. -/
theorem isURL_of_server {raw : Text} (first : (Page.trim raw).head? = some c) (visible : Plain c)
    (url : isURL (trimSpace raw) = true) : isURL (Page.trim raw) = true := by
  obtain ⟨l, r, whole, before, after⟩ := exists_strip Page.isSpace raw
  obtain ⟨l', r', whole', before', -⟩ := exists_strip isSpace raw
  rw [← trimSpace_eq] at whole'
  obtain ⟨d, first', visible'⟩ := head_of_isURL url
  have page := dropWhile_to_plain (fun d mem => not_plain_of_page_isSpace (before d mem))
    (s := Page.trim raw ++ r) (by simp [first]) visible
  have server := dropWhile_to_plain (fun d mem => not_plain_of_isSpace (before' d mem))
    (s := trimSpace raw ++ r') (by simp [first']) visible'
  have same : trimSpace raw ++ r' = Page.trim raw ++ r := by
    rw [← server, ← whole', ← page]
    exact congrArg _ whole
  simp only [isURL, Bool.or_eq_true, List.isPrefixOf_iff_prefix] at url ⊢
  have longer : (trimSpace raw).map Char.toLower <+: (Page.trim raw ++ r).map Char.toLower := by
    rw [← same, List.map_append]
    exact List.prefix_append _ _
  have http : ∀ c ∈ "http://".toList, Plain c := by simp [Plain]
  have https : ∀ c ∈ "https://".toList, Plain c := by simp [Plain]
  exact url.imp (fun starts => start_of_append http after (starts.trans longer))
    fun starts => start_of_append https after (starts.trans longer)

/-! ## The difference -/

theorem validateAdhocAddress_iff {hasHost : Text → Bool} {quote : Text → Text} {raw : Text}
    (plain : isURL (trimSpace raw) = false) : validateAdhocAddress hasHost quote raw = .ok () ↔
      length (trimSpace raw) ≤ addressMaxLen ∧ takes isIPLiteral (trimSpace raw) = true := by
  have again : trimSpace (trimSpace raw) = trimSpace raw := by
    simp [trimSpace, Import.trimSpace_trimSpace]
  have host := validateHostAddress_iff (trimSpace raw)
  rw [again] at host
  have blank : takes isIPLiteral [] = false := by decide
  rw [validateAdhocAddress]
  by_cases empty : trimSpace raw = []
  · simp [empty, blank]
  by_cases long : length (trimSpace raw) > addressMaxLen
  · simp [empty, long, Nat.not_le.mpr long]
  rw [← host]
  simp only [if_neg empty, if_neg long, plain, Bool.false_eq_true, if_false]
  cases validateHostAddress (trimSpace raw) with
  | ok => simp [Nat.not_lt.mp long]
  | error reason =>
    dsimp only
    split <;> simp

/-- What an address must be, as the server trims it, for the server to take it from the page. -/
structure Fits (raw : Text) : Prop where
  short : length (trimSpace raw) ≤ addressMaxLen
  host : Page.isHost (trimSpace raw) = true
  plain : PlainHost (hostPart (trimSpace raw))

/-- Among the addresses that are not URLs, the server takes what the page accepts exactly if it is
short, is a host to the page in the server's trim too, and has no dotted quad that only the page can
read. -/
theorem accepted_by_server_iff (pageURL serverURL : Text → Bool) (quote : Text → Text) (raw : Text)
    (plain : isURL (Page.trim raw) = false) : (Page.isValidAdhocAddress pageURL raw = true →
      validateAdhocAddress serverURL quote raw = .ok ()) ↔
    (Page.isValidAdhocAddress pageURL raw = true → Fits raw) := by
  refine imp_congr_right fun valid => ?_
  have taken : takes Page.isIPLiteral (Page.trim raw) = true := by
    rw [Page.isValidAdhocAddress] at valid
    split at valid
    case isTrue => cases valid
    case isFalse =>
      rw [plain] at valid
      simpa [isHost_eq] using valid
  obtain ⟨c, first, visible⟩ := takes_head taken
  have server : isURL (trimSpace raw) = false := by
    by_contra url
    simp [isURL_of_server first visible (by simpa using url)] at plain
  rw [validateAdhocAddress_iff server, takes_iff, ← isHost_eq]
  constructor
  · rintro ⟨short, host, plain⟩
    exact ⟨short, host, plain⟩
  · rintro ⟨short, host, plain⟩
    exact ⟨short, host, plain⟩

theorem accepted_by_server_iff_mapped : isURL (Page.trim " ::ffff:10.0.0.1%eth0".toList) = false ∧
    ((Page.isValidAdhocAddress (fun _ => false) " ::ffff:10.0.0.1%eth0".toList = true →
      validateAdhocAddress (fun _ => false) id " ::ffff:10.0.0.1%eth0".toList = .ok ()) ↔
    (Page.isValidAdhocAddress (fun _ => false) " ::ffff:10.0.0.1%eth0".toList = true →
      Fits " ::ffff:10.0.0.1%eth0".toList)) :=
  ⟨by decide, accepted_by_server_iff _ _ id _ (by decide)⟩

/-- The page accepts an embedded quad with a leading zero. -/
theorem accepted_only_by_page : isURL (Page.trim "::ffff:010.0.0.1".toList) = false ∧
    Page.isValidAdhocAddress (fun _ => false) "::ffff:010.0.0.1".toList = true ∧
    validateAdhocAddress (fun _ => false) id "::ffff:010.0.0.1".toList = .error .notAHost := by
  decide

end Kconmon.Console.Address
