import Kconmon.Console.Password
import Kconmon.Lib.GoMap
import Kconmon.Lib.Runs

/-!
# Local sessions

A login reads the user's row, verifies the password against it and only later creates
the session, with the stamp of that row. Every request of the session reads the row
again by username. In between the row may be written by password resets and changes,
by rehashes of other logins, by disables and enables, and it may be deleted and created
again under the same name.

`ended`, `clock` and `opening` record what no column holds: the password changes,
disables and deletes that were committed, and which row a session was opened on.
-/
namespace Kconmon.Console.Sessions
open Lib Password

/-- Ids of accounts, drawn from one sequence that never repeats. -/
abbrev Id := Nat

structure Row where
  username : Text
  displayName : Text
  hash : Text
  epoch : Nat := 0
  disabled : Bool := false
  deriving DecidableEq

inductive Ending where
  | passwordChange
  | disable
  | delete
  deriving DecidableEq

structure Ended where
  account : Id
  kind : Ending
  time : Nat
  deriving DecidableEq

/-! ## The users table -/

structure Table where
  users : GoMap Id Row := ∅
  next : Id := 0
  /-- The salts written so far. -/
  salts : List Bytes := []
  ended : List Ended := []
  /-- How many endings were committed. -/
  clock : Nat := 0

def getUserByUsername (users : GoMap Id Row) (username : Text) : Option (Id × Row) :=
  (users.entries.find? fun e => e.2.username = username).map fun e => (e.1, e.2)

namespace Table

def set (t : Table) (id : Id) (row : Row) : Table := { t with users := AList.insert id row t.users }

def log (t : Table) (account : Id) (kind : Ending) : Table :=
  { t with ended := ⟨account, kind, t.clock⟩ :: t.ended, clock := t.clock + 1 }

/-- A salt is 16 random bytes, and was not drawn before. -/
def fresh (t : Table) (salt : Bytes) : Bool := salt.length = argonSaltBytes && salt ∉ t.salts

def createUser (t : Table) (username displayName : Text) (salt : Bytes) (hash : Text) :
    Option Table :=
  if t.fresh salt ∧ getUserByUsername t.users username = none then
    some { t.set t.next { username, displayName, hash } with
      next := t.next + 1, salts := salt :: t.salts }
  else none

def updateUserPassword (t : Table) (id : Id) (salt : Bytes) (hash : Text) : Option Table :=
  if t.fresh salt then (t.users.lookup id).map fun row =>
    { (t.set id { row with hash }).log id .passwordChange with salts := salt :: t.salts }
  else none

/-- Only while the hash is still the old one. -/
def rehashUserPassword (t : Table) (id : Id) (oldHash newHash : Text) : Table :=
  match t.users.lookup id with
  | none => t
  | some row => if row.hash = oldHash then t.set id { row with hash := newHash } else t

def setUserDisabled (t : Table) (id : Id) (disabled : Bool) : Option Table :=
  (t.users.lookup id).map fun row =>
    if disabled then
      (t.set id { row with disabled := true, epoch := row.epoch + 1 }).log id .disable
    else t.set id { row with disabled := false }

def deleteUser (t : Table) (id : Id) : Option Table :=
  (t.users.lookup id).map fun _ => { t.log id .delete with users := t.users.erase id }

end Table

/-! ## Sessions and the requests that use them -/

/-- How a session came about: by a login that read the account's row at a time, by a change of
the own password that read it and was committed later, or before sessions had stamps. -/
inductive Opening where
  | login (account : Id) (read : Nat)
  | reissue (account : Id) (read changed : Nat)
  | unstamped
  deriving DecidableEq

structure Session where
  username : Text
  displayName : Text
  groups : List Text := []
  passwordStamp : Text
  opening : Opening
  deriving DecidableEq

inductive AuthError where
  | noCredentials
  | disabled
  deriving DecidableEq

structure Subject where
  id : Id
  displayName : Text
  groups : List Text
  deriving DecidableEq

/-- The checks the authenticator and the change of the own password share. -/
def resolve (users : GoMap Id Row) (sess : Session) : Except AuthError (Id × Row) :=
  match getUserByUsername users sess.username with
  | none => .error .noCredentials
  | some (id, user) =>
    if user.disabled then .error .disabled
    else if sess.passwordStamp ≠ [] ∧ sess.passwordStamp ≠ sessionStamp user.hash user.epoch then
      .error .noCredentials
    else .ok (id, user)

def authenticate (users : GoMap Id Row) (sess : Session) : Except AuthError Subject :=
  (resolve users sess).map fun (id, user) => ⟨id, user.displayName, sess.groups⟩

/-- A login after the password was verified against the row it read. -/
structure Login where
  account : Id
  row : Row
  plain : Text
  read : Nat
  deriving DecidableEq

/-- A change of the own password after the current one was verified; once committed, with the
new hash and the time. -/
structure Change where
  account : Id
  row : Row
  groups : List Text
  read : Nat
  written : Option (Text × Nat) := none
  deriving DecidableEq

structure State where
  table : Table
  sessions : GoMap Nat Session := ∅
  logins : GoMap Nat Login := ∅
  changes : GoMap Nat Change := ∅
  /-- Requests that read their session and have yet to read the row. -/
  requests : GoMap Nat Session := ∅

/-! ## Steps -/

inductive Action where
  | createUser (username displayName plain : Text) (salt : Bytes)
  | resetPassword (id : Id) (plain : Text) (salt : Bytes)
  | setDisabled (id : Id) (disabled : Bool)
  | deleteUser (id : Id)
  | verify (l : Nat) (username plain : Text)
  | upgrade (l : Nat)
  | openSession (l sid : Nat)
  | present (r sid : Nat)
  | verifyCurrent (c r : Nat) (plain : Text)
  | changePassword (c : Nat) (plain : Text) (salt : Bytes)
  | reissue (c sid : Nat)
  | adopt (sid : Nat) (username displayName : Text) (groups : List Text)
  | deleteSession (sid : Nat)
  deriving DecidableEq

section
variable (argon : Argon)

def verified (hash plain : Text) : Bool := verifyPassword argon hash plain = .ok true

def Table.upgradePasswordHash (t : Table) (login : Login) : Table :=
  if needsRehash login.row.hash then
    match rehashPassword argon login.row.hash login.plain with
    | .error _ => t
    | .ok upgraded => t.rehashUserPassword login.account login.row.hash upgraded
  else t

namespace State

/-- The first half of a login. -/
def verifyLogin (st : State) (l : Nat) (username plain : Text) : Option State :=
  match getUserByUsername st.table.users username with
  | none => none
  | some (account, row) =>
    if row.disabled ∨ ¬ verified argon row.hash plain then none
    else some { st with
      logins := AList.insert l ⟨account, row, plain, st.table.clock⟩ st.logins }

def createSession (st : State) (sid : Nat) (sess : Session) : Option State :=
  if sid ∈ st.sessions then none
  else some { st with sessions := AList.insert sid sess st.sessions }

def openSession (st : State) (l sid : Nat) : Option State :=
  (st.logins.lookup l).bind fun login =>
    { st with logins := st.logins.erase l }.createSession sid
      { username := login.row.username, displayName := login.row.displayName
        passwordStamp := sessionStamp login.row.hash login.row.epoch
        opening := .login login.account login.read }

/-- The first part of a change of the own password. -/
def verifyCurrent (st : State) (c r : Nat) (plain : Text) : Option State :=
  (st.requests.lookup r).bind fun sess =>
    match resolve st.table.users sess with
    | .error _ => none
    | .ok (account, row) =>
      if verified argon row.hash plain then
        some { st with
          changes := AList.insert c
            { account, row, groups := sess.groups, read := st.table.clock } st.changes }
      else none

/-- The new hash is written by id, whatever the row holds by now. -/
def changePassword (st : State) (c : Nat) (plain : Text) (salt : Bytes) : Option State :=
  (st.changes.lookup c).bind fun change =>
    if change.written.isSome then none
    else
      let hash := hashWithSalt argon plain salt
      (st.table.updateUserPassword change.account salt hash).map fun table =>
        { st with table
                  changes := AList.insert c { change with written := some (hash, table.clock) }
                    st.changes }

/-- The new session has the new hash and the epoch of the row that was read. -/
def reissue (st : State) (c sid : Nat) : Option State :=
  (st.changes.lookup c).bind fun change => change.written.bind fun (hash, changed) =>
    { st with changes := st.changes.erase c }.createSession sid
      { username := change.row.username, displayName := change.row.displayName
        groups := change.groups, passwordStamp := sessionStamp hash change.row.epoch
        opening := .reissue change.account change.read changed }

end State

def step (st : State) : Action → Option State
  | .createUser username displayName plain salt =>
    (st.table.createUser username displayName salt (hashWithSalt argon plain salt)).map
      fun table => { st with table }
  | .resetPassword id plain salt =>
    (st.table.updateUserPassword id salt (hashWithSalt argon plain salt)).map
      fun table => { st with table }
  | .setDisabled id disabled => (st.table.setUserDisabled id disabled).map fun table =>
    { st with table }
  | .deleteUser id => (st.table.deleteUser id).map fun table => { st with table }
  | .verify l username plain => st.verifyLogin argon l username plain
  | .upgrade l => (st.logins.lookup l).map fun login =>
    { st with table := st.table.upgradePasswordHash argon login }
  | .openSession l sid => st.openSession l sid
  | .present r sid => (st.sessions.lookup sid).map fun sess =>
    { st with requests := AList.insert r sess st.requests }
  | .verifyCurrent c r plain => st.verifyCurrent argon c r plain
  | .changePassword c plain salt => st.changePassword argon c plain salt
  | .reissue c sid => st.reissue c sid
  | .adopt sid username displayName groups => st.createSession sid
    { username, displayName, groups, passwordStamp := [], opening := .unstamped }
  | .deleteSession sid => some { st with sessions := st.sessions.erase sid }

end

end Kconmon.Console.Sessions
