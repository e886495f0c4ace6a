import Kconmon.Console.ImportRules
import Kconmon.Lib.BitPrefix
import Kconmon.Lib.Search

/-!
# Which address a request is counted against

A request is counted against the address of its peer. Where the peer is a proxy that the operator
named, the hops of `X-Forwarded-For` are read from the right instead: those that are named too are
passed over, and the first that is not is the client. What stands further left was written by the
client or by somebody the client chose, and is not looked at.

How the text of an address is read and written is decided by the package `net`; `NetText` has its
functions, and `NetText.Lawful` what is used of them.
-/
namespace Kconmon.Console.ClientAddress
open Lib
open Import (trimSpace)

/-- The 16 bytes of a `net.IP` that was read; an IPv4 address is IPv4-mapped. -/
abbrev IP := BitVec 128

/-- `IP.To4` -/
def to4 (ip : IP) : Option (BitVec 32) :=
  if ip >>> 32 = 0xffff#128 then some (ip.setWidth 32) else none

/-- A `net.IPNet` as `Contains` reads it, number and mask of one length. -/
inductive IPNet
  | v4 (number mask : BitVec 32)
  | v6 (number mask : BitVec 128)

def IPNet.contains (n : IPNet) (ip : IP) : Bool :=
  match n, to4 ip with
  | v4 number mask, some ip4 => number &&& mask = ip4 &&& mask
  | v6 number mask, none => number &&& mask = ip &&& mask
  | v4 _ _, none | v6 _ _, some _ => false

/-- The functions of `net` that read and write addresses. -/
structure NetText where
  parseIP : String → Option IP
  ipString : IP → String
  /-- The host of a text that is a host and a port. -/
  splitHostPort : String → Option String

variable (net : NetText)

/-! ## The walk along the hops -/

def remoteAddrHost (remoteAddr : String) : String := (net.splitHostPort remoteAddr).getD remoteAddr

def ipInAny (addr : String) (networks : List (Option IPNet)) : Bool :=
  match net.parseIP addr with
  | none => false
  | some ip => networks.any (·.any (·.contains ip))

def parseForwardedHop (hop : String) : Option IP :=
  match net.parseIP hop with
  | some ip => some ip
  | none => (net.splitHostPort hop).bind net.parseIP

/-- The hops of all lines as one list. -/
def forwardedHops (lines : List String) : List String :=
  ((String.intercalate "," lines).toList.splitOn ',').map String.ofList

/-- From the nearest hop on; the peer where no hop is the client. -/
def walk (trusted : List (Option IPNet)) (addr : String) : List String → String
  | [] => addr
  | raw :: further =>
    let hop := trimSpace raw
    if hop = "" then walk trusted addr further
    else match parseForwardedHop net hop with
      | none => addr
      | some ip =>
        if !ipInAny net (net.ipString ip) trusted then net.ipString ip
        else walk trusted addr further

/-- `forwarded` are the lines of `X-Forwarded-For`. -/
def clientIP (remoteAddr : String) (forwarded : List String) (trusted : List (Option IPNet)) :
    String :=
  let addr := remoteAddrHost net remoteAddr
  if trusted.isEmpty || !ipInAny net addr trusted then addr
  else walk net trusted addr (forwardedHops forwarded).reverse

/-- An IPv4 address as it is, an IPv6 address as its `/64`. -/
def rateLimitAddr (addr : String) : String :=
  match net.parseIP addr with
  | none => addr
  | some ip =>
    if (to4 ip).isSome then net.ipString ip else net.ipString (keepFirst 64 ip) ++ "/64"

/-- The client's address and, where a proxy named the client, the proxy's, as budgets have them. -/
def requestAddrs (remoteAddr : String) (forwarded : List String) (trusted : List (Option IPNet)) :
    String × String :=
  let peer := remoteAddrHost net remoteAddr
  let client := clientIP net remoteAddr forwarded trusted
  if client = peer then (rateLimitAddr net client, "")
  else (rateLimitAddr net client, rateLimitAddr net peer)

/-! ## What proxies append -/

/-- `net.JoinHostPort` -/
def joinHostPort (host port : String) : String :=
  if ':' ∈ host.toList then "[" ++ host ++ "]:" ++ port else host ++ ":" ++ port

/-- The characters of an address. -/
def addressChar (c : Char) : Bool :=
  c.isDigit || ('a' ≤ c && c ≤ 'f') || ('A' ≤ c && c ≤ 'F') || c == '.' || c == ':'

/-- What is used of `net`: an address that was read is read back as it is written, its text has no
other characters and not just one colon, and the host is read back from a host and a port. -/
structure NetText.Lawful : Prop where
  parse_ipString : ∀ {s ip}, net.parseIP s = some ip → net.parseIP (net.ipString ip) = some ip
  ne_empty : ∀ {s ip}, net.parseIP s = some ip → s ≠ ""
  chars : ∀ {s ip}, net.parseIP s = some ip → ∀ c ∈ s.toList, addressChar c = true
  colons : ∀ {s ip}, net.parseIP s = some ip → s.toList.count ':' ≠ 1
  split_join : ∀ {host ip port}, net.parseIP host = some ip →
    (∀ c ∈ port.toList, c.isDigit = true) → net.splitHostPort (joinHostPort host port) = some host

/-- The text names the address, with a port or without. -/
inductive Names (ip : IP) : String → Prop
  | bare {s} (parsed : net.parseIP s = some ip) : Names ip s
  | port {host port} (parsed : net.parseIP host = some ip)
      (digits : ∀ c ∈ port.toList, c.isDigit = true) : Names ip (joinHostPort host port)

/-- The address as a hop, perhaps with space around it. -/
def Hop (ip : IP) (t : String) : Prop :=
  ∃ before s after, Names net ip s ∧ t = before ++ s ++ after ∧
    (∀ c ∈ before.toList, isSpace c = true) ∧ ∀ c ∈ after.toList, isSpace c = true

/-- A hop is added as a line of its own or at the end of the last line. -/
inductive Appends (t : String) : List String → List String → Prop
  | line (lines) : Appends t lines (lines ++ [t])
  | extend (lines last) : Appends t (lines ++ [last]) (lines ++ [last ++ "," ++ t])

/-- After the lines `sent` the client's address was appended, and then those of proxies that are
trusted. -/
inductive Forwarded (trusted : List (Option IPNet)) (client : IP) (sent : List String) :
    List String → Prop
  | client {t lines} (appends : Appends t sent lines) (hop : Hop net client t)
      (untrusted : trusted.any (·.any (·.contains client)) = false) :
      Forwarded trusted client sent lines
  | proxy {t lines lines' ip} (forwarded : Forwarded trusted client sent lines)
      (appends : Appends t lines lines') (hop : Hop net ip t)
      (named : trusted.any (·.any (·.contains ip)) = true) : Forwarded trusted client sent lines'

/-! ## Reading a hop back -/

section Text

variable {net} {ip : IP} {s t : String}

/-- Everything an address, its brackets and its port are written with. -/
def HopChar (c : Char) : Prop := '.'.toNat ≤ c.toNat ∧ c.toNat ≤ 'f'.toNat

theorem HopChar.not_isSpace {c : Char} (char : HopChar c) : isSpace c = false := by
  have lower : 46 ≤ c.toNat := char.1
  have upper : c.toNat ≤ 102 := char.2
  simp only [isSpace, Bool.or_eq_false_iff, Bool.and_eq_false_iff, decide_eq_false_iff_not]
  refine ⟨?_, by omega⟩
  simp
  omega

theorem HopChar.ne_comma {c : Char} (char : HopChar c) : c ≠ ',' := by
  rintro rfl
  exact absurd char.1 (by decide)

theorem hopChar_of_addressChar {c : Char} (char : addressChar c = true) : HopChar c := by
  change 46 ≤ c.toNat ∧ c.toNat ≤ 102
  have code : c.toNat = c.val.toNat := rfl
  simp [addressChar, Char.isDigit, Char.le_def, UInt32.le_iff_toNat_le] at char
  rcases char with (((char | char) | char) | rfl) | rfl
  · omega
  · omega
  · omega
  · decide
  · decide

theorem hopChar_of_isDigit {c : Char} (digit : c.isDigit = true) : HopChar c :=
  hopChar_of_addressChar (by simp [addressChar, digit])

/-- Space at the front is dropped up to a text that has none. -/
theorem dropWhile_isSpace {pad x y : List Char} (space : ∀ c ∈ pad, isSpace c = true)
    (chars : ∀ c ∈ x, HopChar c) (nonempty : x ≠ []) :
    (pad ++ (x ++ y)).dropWhile isSpace = x ++ y := by
  obtain ⟨c, x, rfl⟩ := List.exists_cons_of_ne_nil nonempty
  have kept : isSpace c = false := (chars c (by simp)).not_isSpace
  rw [List.dropWhile_append_of_pos space, List.cons_append,
    List.dropWhile_cons_of_neg (by simp [kept])]

theorem trimSpace_pad {before after : String} (chars : ∀ c ∈ s.toList, HopChar c)
    (nonempty : s ≠ "") (spaceBefore : ∀ c ∈ before.toList, isSpace c = true)
    (spaceAfter : ∀ c ∈ after.toList, isSpace c = true) : trimSpace (before ++ s ++ after) = s := by
  have nonempty : s.toList ≠ [] := by simpa using nonempty
  have front : (before ++ s ++ after).toList.dropWhile isSpace = s.toList ++ after.toList := by
    rw [String.toList_append, String.toList_append, List.append_assoc,
      dropWhile_isSpace spaceBefore chars nonempty]
  have back : (s.toList ++ after.toList).reverse.dropWhile isSpace = s.toList.reverse := by
    have space : ∀ c ∈ after.toList.reverse, isSpace c = true := by simpa using spaceAfter
    have chars : ∀ c ∈ s.toList.reverse, HopChar c := by simpa using chars
    simpa using dropWhile_isSpace (y := []) space chars (by simpa using nonempty)
  rw [trimSpace, front, back, List.reverse_reverse, String.ofList_toList]

variable (laws : net.Lawful)
include laws

theorem Names.ne_empty (names : Names net ip s) : s ≠ "" := by
  cases names with
  | bare parsed => exact laws.ne_empty parsed
  | port parsed =>
    unfold joinHostPort
    split_ifs <;> simp

theorem Names.hopChar (names : Names net ip s) : ∀ c ∈ s.toList, HopChar c := by
  cases names with
  | bare parsed => exact fun c mem => hopChar_of_addressChar (laws.chars parsed c mem)
  | port parsed digits =>
    have host := fun c mem => hopChar_of_addressChar (laws.chars parsed c mem)
    have port := fun c mem => hopChar_of_isDigit (digits c mem)
    have bracket : HopChar '[' := ⟨by decide, by decide⟩
    have bracket' : HopChar ']' := ⟨by decide, by decide⟩
    have colon : HopChar ':' := ⟨by decide, by decide⟩
    intro c mem
    unfold joinHostPort at mem
    split_ifs at mem <;> simp at mem <;> grind

/-- With a port the text is no address: it has brackets, or one colon. -/
theorem parseIP_joinHostPort {host port : String}
    (digits : ∀ c ∈ port.toList, c.isDigit = true) :
    net.parseIP (joinHostPort host port) = none := by
  rw [Option.eq_none_iff_forall_ne_some]
  intro ip' parsed'
  unfold joinHostPort at parsed'
  split_ifs at parsed' with colon
  · have := laws.chars parsed' '[' (by simp)
    simp [addressChar] at this
  · have := laws.colons parsed'
    have none : ':' ∉ port.toList := fun mem => by simpa using digits ':' mem
    simp [List.count_eq_zero_of_not_mem colon, List.count_eq_zero_of_not_mem none] at this

theorem Names.parseForwardedHop_eq (names : Names net ip s) :
    parseForwardedHop net s = some ip := by
  unfold parseForwardedHop
  cases names with
  | bare parsed => rw [parsed]
  | port parsed digits =>
    rw [parseIP_joinHostPort laws digits, laws.split_join parsed digits]
    exact parsed

theorem Hop.trimSpace_eq (hop : Hop net ip t) : Names net ip (trimSpace t) := by
  obtain ⟨before, s, after, names, rfl, spaceBefore, spaceAfter⟩ := hop
  rwa [trimSpace_pad (names.hopChar laws) (names.ne_empty laws) spaceBefore spaceAfter]

theorem Hop.comma_not_mem (hop : Hop net ip t) : ',' ∉ t.toList := by
  obtain ⟨before, s, after, names, rfl, spaceBefore, spaceAfter⟩ := hop
  have space : isSpace ',' = false := by decide
  intro mem
  simp only [String.toList_append, List.mem_append] at mem
  obtain (mem | mem) | mem := mem
  · simp [spaceBefore ',' mem] at space
  · exact (names.hopChar laws ',' mem).ne_comma rfl
  · simp [spaceAfter ',' mem] at space

theorem Names.ipInAny_ipString (names : Names net ip s) (trusted : List (Option IPNet)) :
    ipInAny net (net.ipString ip) trusted = trusted.any (·.any (·.contains ip)) := by
  have read : net.parseIP (net.ipString ip) = some ip := by
    cases names with
    | bare parsed | port parsed _ => exact laws.parse_ipString parsed
  simp only [ipInAny, read]

theorem walk_hop (hop : Hop net ip t) (trusted : List (Option IPNet)) (addr : String)
    (further : List String) : walk net trusted addr (t :: further) =
      if trusted.any (·.any (·.contains ip)) then walk net trusted addr further
      else net.ipString ip := by
  have names := hop.trimSpace_eq laws
  simp only [walk, names.ne_empty laws, if_false, names.parseForwardedHop_eq laws,
    names.ipInAny_ipString laws]
  cases trusted.any (·.any (·.contains ip)) <;> simp

end Text

/-! ## Hops that are appended -/

theorem Appends.ne_nil {t : String} {lines lines' : List String}
    (appends : Appends t lines lines') : lines' ≠ [] := by
  cases appends <;> simp

theorem Appends.forwardedHops_eq {t : String} {lines lines' : List String}
    (appends : Appends t lines lines') (plain : ',' ∉ t.toList) (nonempty : lines ≠ []) :
    forwardedHops lines' = forwardedHops lines ++ [t] := by
  have text : String.intercalate "," lines' = String.intercalate "," lines ++ "," ++ t := by
    cases appends with
    | line => rw [String.intercalate_append_of_ne_nil nonempty (by simp),
        String.intercalate_singleton]
    | extend init last =>
      by_cases first : init = []
      · simp [first]
      · simp only [String.intercalate_append_of_ne_nil first (List.cons_ne_nil _ _),
          String.intercalate_singleton, String.append_assoc]
  rw [forwardedHops, text, forwardedHops]
  simp [List.splitOn_append_cons_self, List.splitOn_eq_singleton plain]

/-- The hop that was appended is the nearest. -/
theorem Appends.head_reverse {t : String} {lines lines' : List String}
    (appends : Appends t lines lines') (plain : ',' ∉ t.toList) :
    ∃ further, (forwardedHops lines').reverse = t :: further := by
  by_cases first : lines = []
  · obtain rfl : lines' = [t] := by
      cases appends with
      | line => simp [first]
      | extend init last => simp at first
    exact ⟨[], by simp [forwardedHops, List.splitOn_eq_singleton plain]⟩
  · rw [appends.forwardedHops_eq plain first, List.reverse_concat]
    exact ⟨_, rfl⟩

section Trust

variable {net} (laws : net.Lawful) {trusted : List (Option IPNet)} {client : IP}
  {sent lines : List String}
include laws

section
variable (forwarded : Forwarded net trusted client sent lines)
include forwarded

theorem Forwarded.walk_eq (addr : String) :
    lines ≠ [] ∧ walk net trusted addr (forwardedHops lines).reverse = net.ipString client := by
  induction forwarded with
  | client appends hop untrusted =>
    obtain ⟨further, nearest⟩ := appends.head_reverse (hop.comma_not_mem laws)
    rw [nearest, walk_hop laws hop, if_neg (by simp [untrusted])]
    exact ⟨appends.ne_nil, rfl⟩
  | proxy _ appends hop named ih =>
    rw [appends.forwardedHops_eq (hop.comma_not_mem laws) ih.1, List.reverse_concat,
      walk_hop laws hop, if_pos named]
    exact ⟨appends.ne_nil, ih.2⟩

theorem Forwarded.untrusted : ipInAny net (net.ipString client) trusted = false := by
  induction forwarded with
  | client _ hop untrusted => rwa [(hop.trimSpace_eq laws).ipInAny_ipString laws]
  | proxy _ _ _ _ ih => exact ih

theorem Forwarded.clientIP_eq
    {remoteAddr : String} (peer : ipInAny net (remoteAddrHost net remoteAddr) trusted = true) :
    clientIP net remoteAddr lines trusted = net.ipString client := by
  have nonempty : trusted ≠ [] := by
    rintro rfl
    unfold ipInAny at peer
    split at peer <;> simp at peer
  rw [clientIP, if_neg (by simp [nonempty, peer])]
  exact (forwarded.walk_eq laws _).2

/-- A proxy that names the client is charged too: it is never the client itself. -/
theorem Forwarded.requestAddrs_eq
    {remoteAddr : String} (peer : ipInAny net (remoteAddrHost net remoteAddr) trusted = true) :
    requestAddrs net remoteAddr lines trusted = (rateLimitAddr net (net.ipString client),
        rateLimitAddr net (remoteAddrHost net remoteAddr)) := by
  have other : net.ipString client ≠ remoteAddrHost net remoteAddr := by
    intro same
    have untrusted := forwarded.untrusted laws
    rw [same, peer] at untrusted
    cases untrusted
  rw [requestAddrs, forwarded.clientIP_eq laws peer, if_neg other]

end

end Trust

/-- Behind proxies that are trusted the client is who the first of them saw, whatever the request
had in its headers; behind no such proxy it is the peer. -/
theorem clientIP_not_chosen {net : NetText} (laws : net.Lawful) (remoteAddr : String)
    (trusted : List (Option IPNet)) :
    (∀ client sent lines, ipInAny net (remoteAddrHost net remoteAddr) trusted = true →
      Forwarded net trusted client sent lines →
        clientIP net remoteAddr lines trusted = net.ipString client) ∧
    ∀ lines, trusted = [] ∨ ipInAny net (remoteAddrHost net remoteAddr) trusted = false →
      clientIP net remoteAddr lines trusted = remoteAddrHost net remoteAddr := by
  constructor
  · intro client sent lines peer forwarded
    exact forwarded.clientIP_eq laws peer
  · rintro lines (rfl | untrusted)
    · simp [clientIP]
    · simp [clientIP, untrusted]

/-! ## IPv4 addresses -/

/-- A byte in decimal without leading zeros. -/
def octet (p : List Char) : Option ℕ :=
  let n := Nat.ofDigitChars 10 p 0
  if Nat.toDigits 10 n = p ∧ n < 256 then some n else none

/-- `net` as far as texts have IPv4 addresses only. -/
def ipv4Net : NetText where
  parseIP s :=
    match (s.toList.splitOn '.').map octet with
    | [some a, some b, some c, some d] =>
      some (BitVec.ofNat 128 ((((0xffff * 256 + a) * 256 + b) * 256 + c) * 256 + d))
    | _ => none
  ipString ip := String.ofList (['.'].intercalate
    ([24, 16, 8, 0].map fun shift => Nat.toDigits 10 (ip.toNat / 2 ^ shift % 256)))
  splitHostPort s :=
    if s.toList.count ':' = 1 then some (String.ofList (s.toList.takeWhile (· ≠ ':'))) else none

theorem octet_eq_some {p : List Char} {n : ℕ} (read : octet p = some n) :
    p = Nat.toDigits 10 n ∧ n < 256 := by
  simp only [octet, Option.ite_none_right_eq_some, Option.some.injEq] at read
  obtain ⟨⟨text, small⟩, rfl⟩ := read
  exact ⟨text.symm, small⟩

/-- A text that is read is the one that is written, and has only digits and dots. -/
theorem ipString_of_parseIP {s : String} {ip : IP} (parsed : ipv4Net.parseIP s = some ip) :
    ipv4Net.ipString ip = s ∧ s ≠ "" ∧ ∀ c ∈ s.toList, c.isDigit = true ∨ c = '.' := by
  simp only [ipv4Net] at parsed
  split at parsed
  · rename_i a b c d octets
    simp only [List.map_eq_cons_iff, List.map_eq_nil_iff] at octets
    obtain ⟨p, _, parts, hp, q, _, rfl, hq, r, _, rfl, hr, t, _, rfl, ht, rfl⟩ := octets
    obtain ⟨rfl, ha⟩ := octet_eq_some hp
    obtain ⟨rfl, hb⟩ := octet_eq_some hq
    obtain ⟨rfl, hc⟩ := octet_eq_some hr
    obtain ⟨rfl, hd⟩ := octet_eq_some ht
    cases parsed
    have text : s = String.ofList (['.'].intercalate
        [Nat.toDigits 10 a, Nat.toDigits 10 b, Nat.toDigits 10 c, Nat.toDigits 10 d]) := by
      rw [← parts, List.intercalate_splitOn, String.ofList_toList]
    refine ⟨?_, ?_, fun c mem => ?_⟩
    · rw [text]
      simp only [ipv4Net, BitVec.toNat_ofNat, List.map_cons, List.map_nil]
      congr <;> omega
    · rintro rfl
      simp at parts
    · by_cases dot : c = '.'
      · exact .inr dot
      · obtain ⟨p, listed, mem⟩ := exists_mem_splitOn mem dot
        obtain ⟨n, rfl⟩ : ∃ n, p = Nat.toDigits 10 n := by
          rw [parts] at listed
          grind
        exact .inl (Nat.isDigit_of_mem_toDigits (by decide) (by decide) mem)
  · cases parsed

theorem ipv4Net_lawful : ipv4Net.Lawful := by
  have plain {s : String} {ip : IP} (parsed : ipv4Net.parseIP s = some ip) : ':' ∉ s.toList :=
    fun mem => by simpa using (ipString_of_parseIP parsed).2.2 ':' mem
  constructor
  · intro s ip parsed
    rwa [(ipString_of_parseIP parsed).1]
  · intro s ip parsed
    exact (ipString_of_parseIP parsed).2.1
  · intro s ip parsed c mem
    rcases (ipString_of_parseIP parsed).2.2 c mem with digit | rfl
    · simp [addressChar, digit]
    · decide
  · intro s ip parsed
    rw [List.count_eq_zero_of_not_mem (plain parsed)]
    decide
  · intro host ip port parsed digits
    have other : ':' ∉ port.toList := fun mem => by simpa using digits ':' mem
    have text : (host ++ ":" ++ port).toList = host.toList ++ ':' :: port.toList := by simp
    have cut : (host.toList ++ ':' :: port.toList).takeWhile (· ≠ ':') = host.toList := by
      rw [List.takeWhile_append_of_pos (by have := plain parsed; grind)]
      simp
    rw [joinHostPort, if_neg (plain parsed)]
    simp only [ipv4Net]
    rw [text, if_pos, cut, String.ofList_toList]
    simp [List.count_eq_zero_of_not_mem (plain parsed), List.count_eq_zero_of_not_mem other]

/-- The request comes from a trusted proxy, and so did the last hop but one. -/
theorem clientIP_not_chosen_ipv4Net :
    clientIP ipv4Net "10.0.0.1:443" ["10.0.0.9, 8.8.8.8", "203.0.113.7" ++ "," ++ " 10.0.0.2:80"]
      [some (.v4 0x0a000000#32 0xff000000#32)] = "203.0.113.7" := by
  have client : Hop ipv4Net 0xffffcb007107#128 "203.0.113.7" :=
    ⟨"", "203.0.113.7", "", .bare (by decide +kernel), rfl, by simp, by simp⟩
  have space : " ".toList.all isSpace = true := by decide
  have port : "80".toList.all Char.isDigit = true := by decide
  have proxy : Hop ipv4Net 0xffff0a000002#128 " 10.0.0.2:80" :=
    ⟨" ", joinHostPort "10.0.0.2" "80", "", .port (by decide +kernel) (List.all_eq_true.mp port),
      by decide, List.all_eq_true.mp space, by simp⟩
  have forwarded : Forwarded ipv4Net [some (.v4 0x0a000000#32 0xff000000#32)] 0xffffcb007107#128
      ["10.0.0.9, 8.8.8.8"] (["10.0.0.9, 8.8.8.8"] ++ ["203.0.113.7" ++ "," ++ " 10.0.0.2:80"]) :=
    .proxy (.client (.line _) client (by decide)) (.extend _ "203.0.113.7") proxy (by decide)
  have seen := (clientIP_not_chosen ipv4Net_lawful "10.0.0.1:443" _).1 0xffffcb007107#128 _ _
    (by decide +kernel) forwarded
  exact seen.trans (by decide +kernel)

end Kconmon.Console.ClientAddress
