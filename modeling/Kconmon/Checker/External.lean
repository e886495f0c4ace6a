import Kconmon.Agent.Scheduler
import Kconmon.Checker.Allowlist
import Kconmon.Lib.Lists

/-!
# Continuous checks of destinations outside the cluster

An agent that opted in gets checks assigned by the controller. Each spec of an assignment is
validated on its own, and a bad one is dropped alone. The checker keeps the specs it applies with
a record of each of them. The record is found by the spec's key and survives a new assignment. Of
several specs with one key the checker applies the first.

A sweep takes the specs that are due, authorises and probes each of them, and reports them
together. Between its start and its report the assignment may change. The readers of the parameters
and of URLs, and what a destination answers, are data of the model.
-/
namespace Kconmon.Agent

def CheckType.text : CheckType → String
  | .tcp => "tcp"
  | .udp => "udp"
  | .icmp => "icmp"
  | .pmtu => "pmtu"
  | .dns => "dns"
  | .http => "http"
  | .mtr => "mtr"
  | .external => "external"

def CheckType.all : List CheckType := [.tcp, .udp, .icmp, .pmtu, .dns, .http, .mtr, .external]

/-- The check type a name on the wire stands for. -/
def CheckType.ofText (s : String) : Option CheckType :=
  CheckType.all.find? fun type => type.text = s

end Kconmon.Agent

namespace Kconmon.Checker
open Lib
open Agent (CheckType)
open Console.Import (trimSpace)

/-! ## Specs -/

structure ExternalHTTPParams where
  insecureSkipVerify : Bool := false
  method : String := ""
  expectStatus : Int := 0
  deriving DecidableEq

structure ExternalDNSParams where
  query : String := ""
  deriving DecidableEq

/-- One check as the controller sends it. -/
structure ExternalSpecInput where
  definitionID : String := ""
  name : String
  address : String
  port : Nat := 0
  checkType : String
  /-- In nanoseconds, as every duration here. -/
  interval : Int
  timeout : Int := 0
  paramsJSON : String := ""
  deriving DecidableEq

structure ExternalSpec where
  definitionID : String
  name : String
  address : String
  port : Nat := 0
  type : CheckType
  interval : Int
  timeout : Int
  httpParams : ExternalHTTPParams := {}
  dnsParams : ExternalDNSParams := {}
  httpHost : String := ""
  httpPort : String := ""
  deriving DecidableEq

structure URL where
  scheme : String
  hostname : String
  port : String := ""
  deriving DecidableEq

/-- `encoding/json` at one type. Both readers fill a value that is already there; the strict one
also says what it stopped at. -/
structure Decoder (α : Type) where
  strict : String → α → α × Option String
  lenient : String → α → Except String α

/-- The readers of the standard library. -/
structure Readers where
  empty : Decoder Unit
  http : Decoder ExternalHTTPParams
  dns : Decoder ExternalDNSParams
  parseURL : String → Option URL
  quote : String → String

def externalTick : Int := 5000000000
def externalDefaultTimeout : Int := 5000000000
def externalDefaultTCPPort : Nat := 80
def externalDefaultDNSPort : Nat := 53

namespace Readers

variable (lib : Readers)

def decodeExternalParams {α : Type} (decoder : Decoder α) (raw : String) (dst : α)
    (checkType : String) : Except String α :=
  let trimmed := trimSpace raw
  if trimmed = "" ∨ trimmed = "null" then .ok dst
  else match decoder.strict trimmed dst with
    | (dst, none) => .ok dst
    | (dst, some _) =>
      match decoder.lenient trimmed dst with
      | .ok dst => .ok dst
      | .error err =>
        .error ("params are not valid for check type " ++ lib.quote checkType ++ ": " ++ err)

/-- The URL and the parameters of an http check, with the host and the port to dial. -/
def validateExternalHTTP (spec : ExternalSpec) : Except String ExternalSpec :=
  match lib.parseURL spec.address with
  | none => .error "address is not a valid URL"
  | some u =>
    if u.scheme ≠ "http" ∧ u.scheme ≠ "https" then
      .error "http target address must be an http:// or https:// URL"
    else if u.hostname = "" then .error "http target address has no host"
    else
      let httpPort :=
        if u.port ≠ "" then u.port else if u.scheme = "https" then "443" else "80"
      let method := (if spec.httpParams.method = "" then "GET" else spec.httpParams.method).toUpper
      let expected := spec.httpParams.expectStatus
      if method ≠ "GET" ∧ method ≠ "HEAD" then
        .error "http params \"method\" must be GET or HEAD"
      else if expected ≠ 0 ∧ (expected < 100 ∨ 599 < expected) then
        .error "http params \"expectStatus\" must be 0 or a valid HTTP status"
      else .ok { spec with
        httpHost := u.hostname, httpPort, httpParams := { spec.httpParams with method } }

/-- The part of the validation that depends on the check type. -/
def parseParams (input : ExternalSpecInput) (spec : ExternalSpec) :
    CheckType → Except String ExternalSpec
  | .tcp => do
    let _ ← lib.decodeExternalParams lib.empty input.paramsJSON () input.checkType
    return { spec with type := .tcp
                       port := if input.port = 0 then externalDefaultTCPPort else input.port }
  | .icmp => do
    let _ ← lib.decodeExternalParams lib.empty input.paramsJSON () input.checkType
    return { spec with type := .icmp }
  | .dns => do
    let params ← lib.decodeExternalParams lib.dns input.paramsJSON {} input.checkType
    let query := trimSpace params.query
    if query = "" then throw "dns params require a non-empty \"query\""
    return { spec with type := .dns
                       port := if input.port = 0 then externalDefaultDNSPort else input.port
                       dnsParams := { query } }
  | .http => do
    let httpParams ← lib.decodeExternalParams lib.http input.paramsJSON {} input.checkType
    lib.validateExternalHTTP { spec with type := .http, httpParams }
  | .udp | .mtr | .external | .pmtu =>
    .error ("check type " ++ lib.quote input.checkType ++
      " is not valid for a continuous external check")

def parseExternalSpec (input : ExternalSpecInput) : Except String ExternalSpec :=
  let name := trimSpace input.name
  let address := trimSpace input.address
  if name = "" then .error "target name is empty"
  else if address = "" then .error "target address is empty"
  else if 65535 < input.port then .error "target port is out of range"
  else if input.interval ≤ 0 then .error "interval must be positive"
  else
    match CheckType.ofText input.checkType with
    | none => .error ("unknown check type " ++ lib.quote input.checkType)
    | some type =>
      let spec : ExternalSpec :=
        { definitionID := trimSpace input.definitionID, name, address, type
          interval := max input.interval externalTick
          timeout := if input.timeout ≤ 0 then externalDefaultTimeout else input.timeout }
      lib.parseParams input spec type

end Readers

/-- What the checker knows a target by across assignments. -/
def externalStateKey (spec : ExternalSpec) : String :=
  if spec.definitionID ≠ "" then "def:" ++ spec.definitionID
  else "|".intercalate [spec.type.text, spec.name, spec.address, toString spec.port]

/-- The name of a target and the type of a check of it. -/
def ExternalSpec.check (spec : ExternalSpec) : String × CheckType := (spec.name, spec.type)

/-! ## The checker -/

/-- The record of one target; no probe yet is `none`. -/
structure ExternalTargetState where
  lastProbe : Option Int := none
  probes : Nat := 0
  failures : Nat := 0
  denied : Nat := 0
  deriving DecidableEq

/-- The records of all checkers ever built. Checkers and sweeps hold positions in it. -/
abbrev Records := List ExternalTargetState

structure ExternalChecker where
  /-- Which of the checkers ever built this one is. -/
  id : Nat
  allowlist : Allowlist
  specs : List ExternalSpec := []
  /-- The position of a target's record. -/
  state : GoMap String Nat := ∅
  recorded : ∀ spec ∈ specs, externalStateKey spec ∈ state

structure ExternalCount where
  definitionID : String
  name : String
  type : CheckType
  probes : Nat
  failures : Nat
  denied : Nat
  deriving DecidableEq

def ExternalCount.check (cnt : ExternalCount) : String × CheckType := (cnt.name, cnt.type)

def newExternalChecker (id : Nat) (allowlist : Allowlist) : ExternalChecker :=
  { id, allowlist, recorded := by simp }

namespace ExternalChecker

/-- The loop of `setSpecs`: the specs kept so far and the records they have. -/
structure Filing where
  next : GoMap String Nat := ∅
  kept : List ExternalSpec := []
  records : Records
  recorded : ∀ spec ∈ kept, externalStateKey spec ∈ next

/-- One iteration: a key met before is skipped, a record that exists is carried over. -/
def Filing.add (state : GoMap String Nat) (f : Filing) (spec : ExternalSpec) : Filing :=
  let key := externalStateKey spec
  if key ∈ f.next then f
  else
    let entry := (state.lookup key).getD f.records.length
    { next := f.next.insert key entry
      kept := f.kept ++ [spec]
      records := if (state.lookup key).isSome then f.records else f.records ++ [{}]
      recorded := by
        intro spec' held
        rcases List.mem_append.mp held with held | held
        · exact AList.mem_insert _ |>.mpr (.inr (f.recorded spec' held))
        · obtain rfl : spec' = spec := by simpa using held
          exact AList.mem_insert _ |>.mpr (.inl rfl) }

def setSpecs (specs : List ExternalSpec) (c : ExternalChecker) (records : Records) :
    ExternalChecker × Records :=
  let filing := specs.foldl (Filing.add c.state) { records, recorded := by simp }
  ({ c with specs := filing.kept, state := filing.next, recorded := filing.recorded },
    filing.records)

/-- The applied specs with their accounting. -/
def counts (c : ExternalChecker) (records : Records) : List ExternalCount :=
  c.specs.filterMap fun spec => do
    let entry ← c.state.lookup (externalStateKey spec)
    let st := records.getD entry {}
    return { definitionID := spec.definitionID, name := spec.name, type := spec.type
             probes := st.probes, failures := st.failures, denied := st.denied }

/-- Every applied spec has a record, so the accounting leaves none out. -/
theorem map_check_counts (c : ExternalChecker) (records : Records) :
    (c.counts records).map ExternalCount.check = c.specs.map ExternalSpec.check := by
  rw [counts, List.map_filterMap, ← List.filterMap_eq_map]
  refine List.filterMap_congr fun spec held => ?_
  have recorded := AList.lookup_isSome.mpr (c.recorded spec held)
  obtain ⟨entry, found⟩ := Option.isSome_iff_exists.mp recorded
  simp [found, ExternalCount.check, ExternalSpec.check]

/-- The loop keeps the first spec of each key and notes the keys it has met. -/
theorem filing_spec (state : GoMap String Nat) (empty : Filing) (none_kept : empty.kept = [])
    (none_noted : empty.next = ∅) (specs : List ExternalSpec) :
    (∀ spec, spec ∈ (specs.foldl (Filing.add state) empty).kept ↔
      IsFirst externalStateKey specs spec) ∧
    ∀ key, key ∈ (specs.foldl (Filing.add state) empty).next ↔
      ∃ spec ∈ specs, externalStateKey spec = key := by
  induction specs using List.reverseRecOn with
  | nil => simp [none_kept, none_noted, IsFirst]
  | append_singleton specs spec ih =>
    obtain ⟨kept, noted⟩ := ih
    rw [List.foldl_append, List.foldl_cons, List.foldl_nil]
    simp only [isFirst_append_singleton, Filing.add]
    split <;> rename_i met
    · obtain ⟨earlier, held, same⟩ := (noted _).mp met
      grind
    · grind [AList.mem_insert]

theorem mem_setSpecs {specs : List ExternalSpec} {c : ExternalChecker} {records : Records}
    {spec : ExternalSpec} :
    spec ∈ (c.setSpecs specs records).1.specs ↔ IsFirst externalStateKey specs spec :=
  (filing_spec c.state _ rfl rfl specs).1 spec

end ExternalChecker

/-! ## Sweeps -/

inductive ExternalDenyReason where
  | cidr
  | resolve
  | disabled
  deriving DecidableEq

structure ExternalDetails where
  definitionID : String
  name : String
  checkType : CheckType
  success : Bool := false
  denied : Bool := false
  denyReason : Option ExternalDenyReason := none
  duration : Int := 0
  error : String := ""
  statusCode : Int := 0
  rtt : Int := 0
  lossRatio : Rat := 0
  resolvedIPs : Nat := 0
  /-- The probe was abandoned before it reached the network. -/
  notRun : Bool := false
  deriving DecidableEq

def externalDenyReason : Refusal → ExternalDenyReason
  | .noAllowlist => .disabled
  | .resolutionFailed | .noAddresses | .noDestination => .resolve
  | .deniedIPv4 | .deniedIPv6 | .notAllowedIPv4 | .notAllowedIPv6 | .deniedZoneScoped => .cidr

/-- What the connect, echo, query or request of a probe came back with. -/
structure Reply where
  duration : Int := 0
  failure : Option String := none
  rtt : Int := 0
  lossRatio : Rat := 0
  resolvedIPs : Nat := 0
  statusCode : Int := 0
  deriving DecidableEq

/-- The verdict on the status code of an answer. -/
def statusVerdict (expectStatus statusCode : Int) : Option String :=
  if expectStatus ≠ 0 then
    if statusCode ≠ expectStatus then
      some ("unexpected status " ++ toString statusCode ++ ", want " ++ toString expectStatus)
    else none
  else if 400 ≤ statusCode then some ("unexpected status " ++ toString statusCode)
  else none

def ExternalDetails.settle (detail : ExternalDetails) : Option String → ExternalDetails
  | some err => { detail with error := err }
  | none => { detail with success := true }

/-- The name, and nothing measured. -/
def ExternalSpec.blank (spec : ExternalSpec) : ExternalDetails :=
  { definitionID := spec.definitionID, name := spec.name, checkType := spec.type }

/-- The probe of one target. It is authorised anew each time. -/
def probe (lib : Netip) (allowlist : Allowlist) (resolver : Resolver) (reply : Reply)
    (spec : ExternalSpec) : ExternalDetails :=
  let host := if spec.type = .http then spec.httpHost else spec.address
  match resolveAllowed lib (some allowlist) (some resolver) host with
  | .error refusal =>
    { spec.blank with
      denied := true, denyReason := some (externalDenyReason refusal), error := refusal.text }
  | .ok _ =>
    let detail := { spec.blank with duration := reply.duration }
    match spec.type with
    | .tcp => detail.settle reply.failure
    | .icmp =>
      { detail with rtt := reply.rtt, lossRatio := reply.lossRatio }.settle
        (reply.failure.map fun err => if err = "" then "icmp probe failed" else err)
    | .dns =>
      { detail with resolvedIPs := reply.resolvedIPs }.settle
        (reply.failure.or
          (if reply.resolvedIPs = 0 then some "resolver returned no addresses" else none))
    | .http =>
      match reply.failure with
      | some err => detail.settle (some err)
      | none =>
        { detail with statusCode := reply.statusCode }.settle
          (statusVerdict spec.httpParams.expectStatus reply.statusCode)
    | .udp | .mtr | .external | .pmtu =>
      spec.blank.settle (some ("check type " ++ lib.quote spec.type.text ++
        " is not valid for a continuous external check"))

/-- The detail of a target whose sweep ended before its turn came. -/
def cancelled (spec : ExternalSpec) : ExternalDetails :=
  { spec.blank with error := "external probe cancelled", notRun := true }

/-- The accounting of `recordDenial` and `recordProbe`. -/
def ExternalTargetState.record (st : ExternalTargetState) (detail : ExternalDetails) :
    ExternalTargetState :=
  if detail.denied then { st with probes := st.probes + 1, denied := st.denied + 1 }
  else { st with
    probes := st.probes + 1
    failures := if detail.success then st.failures else st.failures + 1 }

/-- A target of a sweep and, once it is probed, what came of it. -/
structure Slot where
  spec : ExternalSpec
  /-- The position of the target's record. -/
  entry : Nat
  detail : Option ExternalDetails := none
  deriving DecidableEq

structure Sweep where
  allowlist : Allowlist
  slots : List Slot

/-- One iteration of the loop that collects what is due and stamps it. -/
def ExternalChecker.collect (c : ExternalChecker) (now : Int) (due : List Slot × Records)
    (spec : ExternalSpec) : List Slot × Records :=
  match c.state.lookup (externalStateKey spec) with
  | none => due
  | some entry =>
    let st := due.2.getD entry {}
    let waits := st.lastProbe.any fun last => now - last < spec.interval - externalTick / 2
    if waits then due
    else (due.1 ++ [{ spec, entry }], due.2.set entry { st with lastProbe := some now })

def ExternalChecker.due (c : ExternalChecker) (now : Int) (records : Records) :
    List Slot × Records := c.specs.foldl (c.collect now) ([], records)

end Kconmon.Checker
