import Kconmon.Console.PairCursor
import Kconmon.Console.RunStores

/-!
# The list of runs in memory

A console without a database lists its runs newest first, a page at a time. The next page is
asked for by a cursor, an opaque text that holds the instant and the id of the last run of a
page; the store looks that run up in the list as it is filtered now. Between two pages runs are
created, started, finished and reaped, and the ring lets the oldest of them go.
-/
namespace Kconmon.Console.RunStore
open Lib
open Checks (RunStatus)
open Cursor (cursorSep urlAlphabet)

/-! ## Cursors -/

/-- What the standard library and the UUID package do to the texts in a cursor. -/
structure CursorText where
  format : Int → Bytes
  parse : Bytes → Option Int
  isUUID : Bytes → Bool

inductive UUIDCursorError where
  | notBase64
  | missingSeparator
  | parseTime
  | parseID
  deriving DecidableEq

def encodeUUIDCursor (text : CursorText) (createdAt : Int) (id : Bytes) : Bytes :=
  urlAlphabet.encode (text.format createdAt ++ cursorSep :: id)

/-- The decoder once the base64 is undone; the id may hold separators. -/
def decodeRawUUID (text : CursorText) (raw : Bytes) : Except UUIDCursorError (Int × Bytes) :=
  match raw.idxOf? cursorSep with
  | none => .error .missingSeparator
  | some sep =>
    match text.parse (raw.take sep) with
    | none => .error .parseTime
    | some ts =>
      if text.isUUID (raw.drop (sep + 1)) then .ok (ts, raw.drop (sep + 1)) else .error .parseID

/-- `none` is the first page. -/
def decodeUUIDCursor (text : CursorText) (cursor : Bytes) :
    Except UUIDCursorError (Option (Int × Bytes)) :=
  if cursor = [] then .ok none
  else
    match urlAlphabet.decode cursor with
    | none => .error .notBase64
    | some raw => (decodeRawUUID text raw).map some

def encodeRunCursor := encodeUUIDCursor
def decodeRunCursor := decodeUUIDCursor

/-! ## The list -/

def listRunsMinLimit : Int := 1
def listRunsMaxLimit : Int := 500
def listRunsDefaultLimit : Int := 100

def clampListRunsLimit (limit : Int) : Nat :=
  if limit = 0 then listRunsDefaultLimit.toNat
  else if limit < listRunsMinLimit then listRunsMinLimit.toNat
  else if limit > listRunsMaxLimit then listRunsMaxLimit.toNat
  else limit.toNat

def statusText : RunStatus → String
  | .pending => "pending"
  | .running => "running"
  | .succeeded => "succeeded"
  | .failed => "failed"
  | .partialRun => "partial"
  | .cancelled => "cancelled"

/-- Empty texts do not filter. -/
structure RunFilter where
  checkType : String := ""
  status : String := ""
  cursor : Bytes := []
  limit : Int := 0
  deriving DecidableEq

/-- The store, with the check types of its runs. -/
structure RunList where
  store : MemoryStore := {}
  checkTypes : GoMap String String := ∅

/-- A run with its check type. -/
structure TypedRun where
  run : Run
  checkType : String
  deriving DecidableEq

structure RunPage where
  runs : List TypedRun
  nextCursor : Bytes := []
  deriving DecidableEq

def RunFilter.admits (f : RunFilter) (r : TypedRun) : Bool :=
  !(f.checkType ≠ "" && r.checkType ≠ f.checkType) &&
    !(f.status ≠ "" && statusText r.run.status ≠ f.status)

def idBytes (id : String) : Bytes := id.toByteArray.data.toList

namespace RunList

def find (s : RunList) (id : String) : Option TypedRun :=
  (s.store.runs.lookup id).map fun e => ⟨e.run, (s.checkTypes.lookup id).getD ""⟩

/-- The runs that the filter admits, newest first. -/
def filtered (s : RunList) (f : RunFilter) : List TypedRun :=
  s.store.order.reverse.filterMap fun id => (s.find id).filter f.admits

/-- The page that starts at this position of the list. -/
def pageFrom (text : CursorText) (runs : List TypedRun) (limit start : Nat) : RunPage :=
  let page := (runs.drop (min start runs.length)).take limit
  if page.length = limit then
    { runs := page
      nextCursor := match page.getLast? with
        | some last => encodeRunCursor text last.run.createdAt (idBytes last.run.id)
        | none => [] }
  else { runs := page }

/-- A cursor that names no run of the filtered list has an empty page. -/
def listRuns (text : CursorText) (s : RunList) (f : RunFilter) : Except UUIDCursorError RunPage :=
  let runs := s.filtered f
  let limit := clampListRunsLimit f.limit
  match decodeRunCursor text f.cursor with
  | .error err => .error err
  | .ok none => .ok (pageFrom text runs limit 0)
  | .ok (some (_, id)) =>
    match runs.findIdx? fun r => idBytes r.run.id = id with
    | none => .ok { runs := [] }
    | some i => .ok (pageFrom text runs limit (i + 1))

end RunList

/-! ## Walks -/

/-- A call to the store, with the check type that it carries if it creates a run. -/
structure Event where
  now : Int
  call : Call
  checkType : String := ""
  deriving DecidableEq

/-- The id under which an event asks for a run. -/
def Event.newIDs (e : Event) : List String :=
  match e.call with
  | .createRun id .. => [id]
  | _ => []

namespace RunList

def apply (env : Env) (s : RunList) (e : Event) : RunList :=
  let after := s.store.call env e.now e.call
  { store := after.1
    checkTypes :=
      if after.2 =
        .done then e.newIDs.foldl (fun m id => AList.insert id e.checkType m) s.checkTypes
      else s.checkTypes }

end RunList

/-- One page read: the list and the cursor that it was read with, and what it returned. -/
structure Read where
  list : RunList
  cursor : Bytes
  runs : List TypedRun

/-- The reads that follow the cursor from page to page, with the events before each further read:
nothing when a read fails, or when the cursor is not yet empty at the end of the events. -/
def walk (text : CursorText) (env : Env) (f : RunFilter) (s : RunList) (cursor : Bytes)
    (events : List (List Event)) : Option (List Read) :=
  match s.listRuns text { f with cursor } with
  | .error _ => none
  | .ok page =>
    if page.nextCursor = [] then some [⟨s, cursor, page.runs⟩]
    else
      match events with
      | [] => none
      | first :: later =>
        (walk text env f (first.foldl (RunList.apply env) s) page.nextCursor later).map
          (⟨s, cursor, page.runs⟩ :: ·)

end Kconmon.Console.RunStore
