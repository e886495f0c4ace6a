import Kconmon.Console.ImportRules
import Kconmon.Console.RunStores

/-!
# Which route a trace walked

A trace is filed under the hash of the addresses that answered. The hash is computed by the
projector when a result is stored, by the reader when a stored result is listed again, and by the
store when it checks what it is given. Silent hops are kept in the payload and left out of the
hash; a trace in which no hop answered has the hash of a text that no addresses make.

Texts are those that JSON can hold, for which the characters say what the bytes do.
-/
namespace Kconmon.Console.PathIdentity
open Lib
open Checks (Spec Pair Destination)
open Import (trimSpace trimSpace_trimSpace)

structure MTRHop where
  number : Int
  ip : String
  hostname : String := ""
  rtt : Int := 0
  /-- The bits of a float64. -/
  lossRatio : UInt64 := 0
  deriving DecidableEq

structure MTRResult where
  type : String := ""
  hops : List MTRHop
  deriving DecidableEq

structure PathHop where
  number : Int
  ip : String
  hostname : String := ""
  rttNs : Int := 0
  lossRatio : UInt64 := 0
  deriving DecidableEq

structure PathSnapshotInput where
  sourceNode : String
  destination : String
  pathHash : String := ""
  hops : List PathHop
  seenAt : Int
  runID : String := ""
  deriving DecidableEq

/-- What the standard library and the UUID package do: the JSON decoder, the hash and the canonical
text of a UUID. The hash is taken to have no collisions. -/
structure Env where
  unmarshal : Bytes → Option MTRResult
  sha256 : String → Bytes
  canonicalUUID : String → Option String
  someDigest : ∀ text, sha256 text ≠ []
  collisionFree : Function.Injective sha256

/-! ## Hashes -/

def hexDigit (n : Nat) : Char := "0123456789abcdef".toList.getD n '0'

def hexEncode (bytes : Bytes) : String :=
  String.ofList (bytes.flatMap fun b => [hexDigit (b.toNat / 16), hexDigit (b.toNat % 16)])

def hopSep : String := "\n"

/-- What the hash was given so far, and whether it was given anything. -/
structure Hashed where
  text : String := ""
  wrote : Bool := false

def Hashed.write (h : Hashed) (ip : String) : Hashed :=
  if trimSpace ip = "" ∨ ip = "*" then h
  else ⟨(if h.wrote then h.text ++ hopSep else h.text) ++ ip, true⟩

/-- The hash reads nothing of a hop but its address. -/
def hashAddresses (env : Env) (ips : List String) : String :=
  let h := ips.foldl Hashed.write {}
  if h.wrote then hexEncode (env.sha256 h.text) else ""

def hashPath (env : Env) (hops : List PathHop) : String := hashAddresses env (hops.map (·.ip))

def silentPathToken : String := "\x00kconmon-ng:no-hop-answered"

def hashSilentPath (env : Env) : String := hexEncode (env.sha256 silentPathToken)

/-! ## The reader and the projector -/

def normalizeHops (hops : List MTRHop) : List PathHop :=
  hops.map fun hop =>
    let ip := trimSpace hop.ip
    { number := hop.number
      ip := if ip = "" then "*" else ip
      hostname := hop.hostname
      rttNs := hop.rtt
      lossRatio := hop.lossRatio }

def checkMTR : String := "mtr"

def traceFromResult (env : Env) (resultJSON : Bytes) : Option (List PathHop × String) :=
  if resultJSON.length = 0 then none
  else
    match env.unmarshal resultJSON with
    | none => none
    | some res =>
      if res.type ≠ "" ∧ res.type ≠ checkMTR then none
      else
        let hops := normalizeHops res.hops
        if hops.length = 0 then none
        else
          let hash := hashPath env hops
          let hash := if hash = "" then hashSilentPath env else hash
          some (hops, hash)

def label (d : Destination) : String :=
  if d.isNode then d.node else if d.name ≠ "" then d.name else d.address

/-- A missing spec or pair is a nil pointer. -/
def projectMTRSnapshot (env : Env) (spec : Option Spec) (pair : Option Pair) (resultJSON : Bytes)
    (observedAt : Int) (runID : String) : Option PathSnapshotInput :=
  match spec, pair with
  | some spec, some pair =>
    if spec.type ≠ checkMTR then none
    else if resultJSON.length = 0 then none
    else
      match env.unmarshal resultJSON with
      | none => none
      | some res =>
        if res.type ≠ "" ∧ res.type ≠ checkMTR then none
        else
          let hops := normalizeHops res.hops
          if hops.length = 0 then none
          else
            let hash := hashPath env hops
            let hash := if hash = "" then hashSilentPath env else hash
            some
              { sourceNode := pair.source
                destination := label pair.destination
                pathHash := hash
                hops := hops
                seenAt := observedAt
                runID := runID }
  | _, _ => none

/-! ## The store's check -/

inductive SnapshotError where
  | emptySource
  | emptyDestination
  | noHops
  | tooManyHops (hops : Nat)
  | hopWithoutIP (index : Nat)
  | zeroTime
  | hashMismatch (got want : String)
  | badRunID
  deriving DecidableEq

/-- The instant 0 is the zero time. -/
def PathSnapshotInput.validate (env : Env) (i : PathSnapshotInput) :
    Except SnapshotError PathSnapshotInput :=
  if i.sourceNode = "" then .error .emptySource
  else if i.destination = "" then .error .emptyDestination
  else if i.hops.length = 0 then .error .noHops
  else if i.hops.length > RunStore.maxPathHops then .error (.tooManyHops i.hops.length)
  else
    match i.hops.findIdx? (·.ip = "") with
    | some index => .error (.hopWithoutIP index)
    | none =>
      if i.seenAt = 0 then .error .zeroTime
      else
        let want := hashPath env i.hops
        let want := if want = "" then hashSilentPath env else want
        if i.pathHash ≠ "" ∧ i.pathHash ≠ want then .error (.hashMismatch i.pathHash want)
        else if i.runID ≠ "" ∧ env.canonicalUUID i.runID = none then .error .badRunID
        else .ok { i with pathHash := want }

/-! ## Texts and hashes -/

theorem hexDigit_inj : ∀ m < 16, ∀ n < 16, hexDigit m = hexDigit n → m = n := by
  decide

theorem hexEncode_injective : Function.Injective hexEncode := by
  intro a b same
  replace same := String.ofList_injective same
  induction a generalizing b with
  | nil => cases b <;> simp_all
  | cons x a ih =>
    cases b with
    | nil => simp at same
    | cons y b =>
      simp only [List.flatMap_cons, List.cons_append, List.nil_append, List.cons.injEq] at same
      obtain ⟨high, low, rest⟩ := same
      have xByte := x.toNat_lt
      have yByte := y.toNat_lt
      have high := hexDigit_inj _ (by omega) _ (by omega) high
      have low := hexDigit_inj _ (by omega) _ (by omega) low
      have bytes : x = y := UInt8.toNat_inj.mp (by omega)
      rw [bytes, ih rest]

theorem hexEncode_ne_empty {bytes : Bytes} (someByte : bytes ≠ []) : hexEncode bytes ≠ "" :=
  fun empty => someByte (hexEncode_injective empty)

/-- Lines without line breaks are read back from their text. -/
theorem splitOn_lines {lines : List String} (clean : ∀ line ∈ lines, '\n' ∉ line.toList)
    (some_line : lines ≠ []) :
    (hopSep.intercalate lines).toList.splitOn '\n' = lines.map String.toList := by
  rw [String.toList_intercalate]
  refine List.splitOn_intercalate '\n' ?_ (by simpa using some_line)
  simpa using clean

theorem lines_injective {lines lines' : List String}
    (clean : ∀ line ∈ lines, '\n' ∉ line.toList) (some_line : lines ≠ [])
    (clean' : ∀ line ∈ lines', '\n' ∉ line.toList) (some_line' : lines' ≠ [])
    (same : hopSep.intercalate lines = hopSep.intercalate lines') : lines = lines' := by
  have read := splitOn_lines clean some_line
  rw [same, splitOn_lines clean' some_line'] at read
  exact (List.map_injective_iff.mpr fun _ _ => String.toList_injective) read.symm

theorem mem_of_mem_trimSpace {c : Char} {v : String} (mem : c ∈ (trimSpace v).toList) :
    c ∈ v.toList := by
  rw [trimSpace, String.toList_ofList, List.mem_reverse] at mem
  have mem := (List.dropWhile_sublist _).mem mem
  exact (List.dropWhile_sublist _).mem (List.mem_reverse.mp mem)

/-! ## What is hashed -/

/-- The addresses that the hash does not pass over. -/
def answered (ips : List String) : List String :=
  ips.filter fun ip => ¬(trimSpace ip = "" ∨ ip = "*")

theorem answered_cons (ip : String) (ips : List String) : answered (ip :: ips) =
    if trimSpace ip = "" ∨ ip = "*" then answered ips else ip :: answered ips := by
  simp only [answered, List.filter_cons, decide_not, Bool.not_eq_true', decide_eq_false_iff_not,
    ite_not]

/-- The hash after so many addresses. -/
def Hashed.of (written : List String) : Hashed := ⟨hopSep.intercalate written, written ≠ []⟩

theorem Hashed.write_of (written : List String) {ip : String}
    (responds : ¬(trimSpace ip = "" ∨ ip = "*")) :
    (Hashed.of written).write ip = .of (written ++ [ip]) := by
  rw [write, if_neg responds]
  by_cases first : written = []
  · simp [of, first]
  · simp [of, first, String.intercalate_append_of_ne_nil]

theorem Hashed.foldl_write (ips written : List String) :
    ips.foldl write (.of written) = .of (written ++ answered ips) := by
  induction ips generalizing written with
  | nil => simp [answered]
  | cons ip ips ih =>
    rw [List.foldl_cons, answered_cons]
    by_cases silent : trimSpace ip = "" ∨ ip = "*"
    · rw [write, if_pos silent, if_pos silent, ih]
    · rw [write_of written silent, if_neg silent, ih, List.append_assoc, List.singleton_append]

theorem hashAddresses_eq (env : Env) (ips : List String) : hashAddresses env ips =
      if answered ips = [] then "" else hexEncode (env.sha256 (hopSep.intercalate (answered ips)))
    := by
  have run : ips.foldl Hashed.write {} = .of (answered ips) := Hashed.foldl_write ips []
  simp [hashAddresses, run, Hashed.of]

/-- An address of a trace: neither a line break nor a NUL. -/
def Address (ip : String) : Prop := '\n' ∉ ip.toList ∧ '\x00' ∉ ip.toList

instance (ip : String) : Decidable (Address ip) := inferInstanceAs (Decidable (_ ∧ _))

/-- The addresses that answered, trimmed and in order. -/
def responders (hops : List MTRHop) : List String :=
  (hops.map fun hop => trimSpace hop.ip).filter fun ip => ip ≠ "" ∧ ip ≠ "*"

theorem responders_cons (hop : MTRHop) (hops : List MTRHop) : responders (hop :: hops) =
    if trimSpace hop.ip ≠ "" ∧ trimSpace hop.ip ≠ "*" then trimSpace hop.ip :: responders hops
    else responders hops := by
  simp only [responders, List.map_cons, List.filter_cons, decide_eq_true_eq]

theorem answered_normalizeHops (hops : List MTRHop) :
    answered ((normalizeHops hops).map (·.ip)) = responders hops := by
  have star : trimSpace "*" = "*" := by decide
  induction hops with
  | nil => rfl
  | cons hop hops ih =>
    have first : (normalizeHops (hop :: hops)).map (·.ip) =
        (if trimSpace hop.ip = "" then "*" else trimSpace hop.ip) ::
          (normalizeHops hops).map (·.ip) := rfl
    rw [first, answered_cons, responders_cons, ih]
    grind [trimSpace_trimSpace]

theorem address_of_mem_responders {hops : List MTRHop} (addresses : ∀ hop ∈ hops, Address hop.ip) :
    ∀ ip ∈ responders hops, Address ip := by
  intro ip mem
  obtain ⟨hop, hopMem, rfl⟩ := List.mem_map.mp (List.mem_of_mem_filter mem)
  obtain ⟨noBreak, noNul⟩ := addresses hop hopMem
  exact ⟨fun mem => noBreak (mem_of_mem_trimSpace mem), fun mem => noNul (mem_of_mem_trimSpace mem)⟩

/-! ## The identity of a path -/

/-- The lines whose text is hashed for a trace: the responders, or the one line that stands for
their absence. -/
def identityLines (answers : List String) : List String :=
  if answers = [] then [silentPathToken] else answers

/-- The hash that the reader, the projector and the store's check all compute. -/
def identity (env : Env) (hops : List PathHop) : String :=
  if hashPath env hops = "" then hashSilentPath env else hashPath env hops

theorem identity_eq (env : Env) (hops : List PathHop) : identity env hops =
    hexEncode (env.sha256 (hopSep.intercalate (identityLines (answered (hops.map (·.ip)))))) := by
  rw [identity, hashPath, hashAddresses_eq, identityLines]
  by_cases none_answered : answered (hops.map (·.ip)) = []
  · simp [none_answered, hashSilentPath]
  · simp [none_answered, hexEncode_ne_empty (env.someDigest _)]

theorem identityLines_clean {answers : List String} (addresses : ∀ ip ∈ answers, Address ip) :
    ∀ line ∈ identityLines answers, '\n' ∉ line.toList := by
  intro line mem
  rw [identityLines] at mem
  split at mem
  · rw [List.mem_singleton.mp mem]
    decide
  · exact (addresses line mem).1

theorem identityLines_ne_nil (answers : List String) : identityLines answers ≠ [] := by
  grind [identityLines]

theorem identityLines_inj {answers answers' : List String}
    (addresses : ∀ ip ∈ answers, Address ip) (addresses' : ∀ ip ∈ answers', Address ip) :
    identityLines answers = identityLines answers' ↔ answers = answers' := by
  have token : ¬Address silentPathToken := by decide
  grind [identityLines]

/-- Two traces have one identity exactly if the same addresses answered in the same order. -/
theorem identity_inj (env : Env) {hops hops' : List PathHop}
    (addresses : ∀ ip ∈ answered (hops.map (·.ip)), Address ip)
    (addresses' : ∀ ip ∈ answered (hops'.map (·.ip)), Address ip) :
    identity env hops = identity env hops' ↔
      answered (hops.map (·.ip)) = answered (hops'.map (·.ip)) := by
  rw [identity_eq, identity_eq, ← identityLines_inj addresses addresses']
  constructor
  · intro same
    exact lines_injective (identityLines_clean addresses) (identityLines_ne_nil _)
      (identityLines_clean addresses') (identityLines_ne_nil _)
      (env.collisionFree (hexEncode_injective same))
  · intro same
    rw [same]

/-! ## The reader, the projector and the check -/

/-- A payload that is stored for a trace. -/
structure Stored (env : Env) (resultJSON : Bytes) (res : MTRResult) : Prop where
  payload : resultJSON ≠ []
  decodes : env.unmarshal resultJSON = some res
  mtr : res.type = "" ∨ res.type = checkMTR
  some_hop : res.hops ≠ []
  bounded : res.hops.length ≤ RunStore.maxPathHops
  addresses : ∀ hop ∈ res.hops, Address hop.ip

variable {env : Env} {resultJSON : Bytes} {res : MTRResult}

theorem traceFromResult_stored (stored : Stored env resultJSON res) :
    traceFromResult env resultJSON =
      some (normalizeHops res.hops, identity env (normalizeHops res.hops)) := by
  have mtr : ¬(res.type ≠ "" ∧ res.type ≠ checkMTR) := by have := stored.mtr; tauto
  simp [traceFromResult, stored.payload, stored.decodes, mtr, normalizeHops, stored.some_hop,
    identity]

theorem projectMTRSnapshot_stored (stored : Stored env resultJSON res) {spec : Spec}
    (mtrSpec : spec.type = checkMTR) (pair : Pair) (observedAt : Int) (runID : String) :
    projectMTRSnapshot env (some spec) (some pair) resultJSON observedAt runID =
      some ⟨pair.source, label pair.destination, identity env (normalizeHops res.hops),
        normalizeHops res.hops, observedAt, runID⟩ := by
  have mtr : ¬(res.type ≠ "" ∧ res.type ≠ checkMTR) := by have := stored.mtr; tauto
  simp [projectMTRSnapshot, mtrSpec, stored.payload, stored.decodes, mtr, normalizeHops,
    stored.some_hop, identity]

theorem ip_ne_empty_of_mem_normalizeHops {hops : List MTRHop} {hop : PathHop}
    (mem : hop ∈ normalizeHops hops) : hop.ip ≠ "" := by
  obtain ⟨raw, -, rfl⟩ := List.mem_map.mp mem
  dsimp only
  split <;> simp_all

/-- What the store's check can still find wrong with a projected trace is its run. -/
theorem validate_projected (stored : Stored env resultJSON res) {source destination : String}
    {observedAt : Int} (named : source ≠ "") (labelled : destination ≠ "") (timed : observedAt ≠ 0)
    (runID : String) :
    let snap : PathSnapshotInput :=
      ⟨source, destination, identity env (normalizeHops res.hops), normalizeHops res.hops,
        observedAt, runID⟩
    snap.validate env =
      if runID = "" ∨ (env.canonicalUUID runID).isSome then .ok snap else .error .badRunID := by
  have addressed : (normalizeHops res.hops).findIdx? (·.ip = "") = none := by
    simpa [List.findIdx?_eq_none_iff] using fun hop => ip_ne_empty_of_mem_normalizeHops
  have few : ¬(normalizeHops res.hops).length > RunStore.maxPathHops := by
    simpa [normalizeHops] using stored.bounded
  have some_hop : (normalizeHops res.hops).length ≠ 0 := by
    simpa [normalizeHops] using stored.some_hop
  intro snap
  have checked : snap.validate env =
      if runID ≠ "" ∧ env.canonicalUUID runID = none then .error .badRunID else .ok snap := by
    simp [PathSnapshotInput.validate, snap, named, labelled, timed, some_hop, few, addressed,
      identity]
  rw [checked]
  cases env.canonicalUUID runID <;> by_cases bare : runID = "" <;> simp [bare]

/-- Two stored traces are listed under one hash exactly if the same addresses answered in the same
order, and under the hash of silence exactly if none did. The projection of a trace carries what the
reader finds, and the store's check accepts it with every run id that it accepts at all. -/
theorem stored_trace_identity (env : Env) {resultJSON resultJSON' : Bytes} {res res' : MTRResult}
    (stored : Stored env resultJSON res) (stored' : Stored env resultJSON' res') :
    ∃ hops hash hops' hash', traceFromResult env resultJSON = some (hops, hash) ∧
      traceFromResult env resultJSON' = some (hops', hash') ∧
      (hash = hash' ↔ responders res.hops = responders res'.hops) ∧
      (hash = hashSilentPath env ↔ responders res.hops = []) ∧
      ∀ spec pair observedAt runID, spec.type = checkMTR →
        ∃ snap, projectMTRSnapshot env (some spec) (some pair) resultJSON observedAt runID =
            some snap ∧ snap.hops = hops ∧ snap.pathHash = hash ∧
          (pair.source ≠ "" → label pair.destination ≠ "" → observedAt ≠ 0 →
            snap.validate env = if runID = "" ∨ (env.canonicalUUID runID).isSome then .ok snap
              else .error .badRunID) := by
  have addresses := address_of_mem_responders stored.addresses
  have addresses' := address_of_mem_responders stored'.addresses
  rw [← answered_normalizeHops] at addresses addresses'
  refine ⟨_, _, _, _, traceFromResult_stored stored, traceFromResult_stored stored', ?_, ?_, ?_⟩
  · rw [identity_inj env addresses addresses', answered_normalizeHops, answered_normalizeHops]
  · have silent : hashSilentPath env = identity env [] := rfl
    rw [silent, identity_inj env addresses (by simp [answered]), answered_normalizeHops]
    rfl
  · intro spec pair observedAt runID mtrSpec
    refine ⟨_, projectMTRSnapshot_stored stored mtrSpec pair observedAt runID, rfl, rfl, ?_⟩
    intro named labelled timed
    exact validate_projected stored named labelled timed runID

/-- A route that flaps a silent hop, and a route of which nothing answered. -/
def flapping : MTRResult :=
  ⟨"mtr", [⟨1, " ", "", 0, 0⟩, ⟨2, "10.0.0.1 ", "gw", 5, 0⟩, ⟨3, "*", "", 0, 0⟩]⟩

def silence : MTRResult := ⟨"", [⟨1, "", "", 0, 0⟩, ⟨2, "*", "", 0, 0⟩]⟩

def flappingJSON : Bytes := ("\x7b\"type\":\"mtr\",\"details\":\x7b\"target\":\"t\",\"hops\":[" ++
  "\x7b\"number\":1,\"ip\":\" \",\"rtt\":0,\"lossRatio\":0\x7d," ++
  "\x7b\"number\":2,\"ip\":\"10.0.0.1 \",\"hostname\":\"gw\",\"rtt\":5,\"lossRatio\":0\x7d," ++
  "\x7b\"number\":3,\"ip\":\"*\",\"rtt\":0,\"lossRatio\":0\x7d]\x7d\x7d").toList.map letter

def silenceJSON : Bytes := ("\x7b\"details\":\x7b\"hops\":[\x7b\"number\":1\x7d," ++
  "\x7b\"number\":2,\"ip\":\"*\"\x7d]\x7d\x7d").toList.map letter

/-- A hash that is its own text. -/
def transparent : Env where
  unmarshal bytes := if bytes = flappingJSON then some flapping
    else if bytes = silenceJSON then some silence else none
  sha256 text := 0 :: text.toByteArray.data.toList
  canonicalUUID id := if isUUID id.toList then some id else none
  someDigest _ := List.cons_ne_nil _ _
  collisionFree a b same := by
    have same := ByteArray.ext (Array.toList_inj.mp (List.cons.inj same).2)
    exact String.toByteArray_inj.mp same

theorem stored_trace_identity_flapping :
    let runID := "00000000-0000-4000-8000-000000000001"
    ∃ hops hash hops' hash', traceFromResult transparent flappingJSON = some (hops, hash) ∧
      traceFromResult transparent silenceJSON = some (hops', hash') ∧ hash ≠ hash' ∧
      hash ≠ hashSilentPath transparent ∧
      ∀ spec pair observedAt, spec.type = checkMTR → pair.source ≠ "" →
        label pair.destination ≠ "" → observedAt ≠ 0 → ∃ snap,
          projectMTRSnapshot transparent (some spec) (some pair) flappingJSON observedAt runID =
            some snap ∧ snap.hops = hops ∧ snap.pathHash = hash ∧
          snap.validate transparent = .ok snap := by
  intro runID
  have first : Stored transparent flappingJSON flapping :=
    ⟨by decide +kernel, by simp only [transparent, if_true], by decide, by decide, by decide,
      by decide⟩
  have other : silenceJSON ≠ flappingJSON := by decide +kernel
  have second : Stored transparent silenceJSON silence :=
    ⟨by decide +kernel, by simp only [transparent, other, if_false, if_true], by decide, by decide,
      by decide, by decide⟩
  obtain ⟨hops, hash, hops', hash', trace, trace', same, silent, snapshot⟩ :=
    stored_trace_identity transparent first second
  refine ⟨hops, hash, hops', hash', trace, trace', mt same.mp (by decide), mt silent.mp (by decide),
    fun spec pair observedAt type source destination time => ?_⟩
  obtain ⟨snap, projected, kept, hashed, valid⟩ := snapshot spec pair observedAt runID type
  refine ⟨snap, projected, kept, hashed, (valid source destination time).trans (if_pos (.inr ?_))⟩
  decide +kernel

/-! ## The stores' own model -/

/-- Of a hop, the stores keep what their model reads. -/
def PathSnapshotInput.plain (i : PathSnapshotInput) : RunStore.PathSnapshotInput :=
  ⟨i.sourceNode, i.destination, i.pathHash, i.hops.map fun hop => ⟨hop.number, hop.ip⟩, i.seenAt,
    i.runID⟩

def Env.plain (env : Env) : RunStore.Env where
  hashPath hops := hashAddresses env (hops.map (·.ip))
  hashSilentPath := hashSilentPath env
  canonicalUUID := env.canonicalUUID

/-- The check that both run stores make is this one, without its messages. -/
theorem plain_validate (env : Env) (i : PathSnapshotInput) :
    i.plain.validate env.plain = (i.validate env).toOption.map (·.plain) := by
  have hash : env.plain.hashPath i.plain.hops = hashPath env i.hops := by
    simp [Env.plain, PathSnapshotInput.plain, hashPath, Function.comp_def]
  have unaddressed : (∃ hop ∈ i.plain.hops, hop.ip = "") ↔ i.hops.findIdx? (·.ip = "") ≠ none := by
    simp [PathSnapshotInput.plain, List.findIdx?_eq_none_iff]
  have length : i.plain.hops.length = i.hops.length := by simp [PathSnapshotInput.plain]
  have want : identity env i.hops =
      if hashPath env i.hops = "" then hashSilentPath env else hashPath env i.hops := rfl
  have none_left : i.plain.hops = [] ↔ i.hops.length = 0 := by simp [PathSnapshotInput.plain]
  simp only [RunStore.PathSnapshotInput.validate, PathSnapshotInput.validate, unaddressed, hash,
    length, none_left, ne_eq]
  simp only [PathSnapshotInput.plain, Env.plain]
  by_cases source : i.sourceNode = ""
  · simp [source, Except.toOption]
  by_cases destination : i.destination = ""
  · simp [source, destination, Except.toOption]
  by_cases empty : i.hops.length = 0
  · simp [source, destination, empty, Except.toOption]
  by_cases long : i.hops.length > RunStore.maxPathHops
  · simp [source, destination, empty, long, Except.toOption]
  cases addressed : i.hops.findIdx? (·.ip = "") with
  | some index => simp [source, destination, empty, long, Except.toOption]
  | none =>
    simp only [source, destination, empty, long, not_true_eq_false, false_or, if_false]
    by_cases time : i.seenAt = 0
    · simp only [if_pos time, Except.toOption, Option.map_none]
    by_cases mismatch : ¬i.pathHash = "" ∧ ¬i.pathHash = identity env i.hops
    · simp only [if_neg time, ← want, if_pos mismatch, Except.toOption, Option.map_none]
    by_cases run : ¬i.runID = "" ∧ env.canonicalUUID i.runID = none
    · simp only [if_neg time, ← want, if_neg mismatch, if_pos run, Except.toOption, Option.map_none]
    · simp only [if_neg time, ← want, if_neg mismatch, if_neg run, Except.toOption, Option.map_some]

end Kconmon.Console.PathIdentity
