import Kconmon.Lib.GoMap
import Kconmon.Lib.Runs

/-!
# API tokens and the users they act for

A token row names its owner; authentication refuses it while the owner's row is
disabled and lets it pass when there is no such row. Deleting or disabling a user
therefore sweeps the tokens that user owns. A mint is two steps, authenticate and
insert, and the insert may come after the sweep that should have caught it.

`root` and `ended` record what no column holds: the user at the start of a chain of
mints, and how often that user had been disabled or deleted when the mint was
authenticated.
-/
namespace Kconmon.Console.Tokens
open Lib

/-- Ids of users and tokens, drawn from one sequence that never repeats. -/
abbrev Id := Nat

structure Token where
  owner : Id
  revoked : Bool := false
  expired : Bool := false
  root : Id
  ended : Nat
  deriving DecidableEq

def tokenIsSpent (t : Token) : Bool := t.revoked || t.expired

inductive Subject where
  | user (id : Id)
  | token (id : Id)
  deriving DecidableEq

/-- A mint between its authentication and its insert. -/
structure Mint where
  subject : Subject
  root : Id
  ended : Nat
  deriving DecidableEq

/-- What a request on a user does next. -/
inductive Request where
  | disable (user : Id)
  | sweepDisabled (user : Id)
  | sweepEnabling (user : Id)
  | enable (user : Id)
  | sweepDeleting (user : Id)
  | delete (user : Id)
  | sweepDeleted (user : Id)
  deriving DecidableEq

structure State where
  /-- The users' rows, by whether they are disabled. -/
  users : GoMap Id Bool := ∅
  tokens : GoMap Id Token := ∅
  mints : GoMap Nat Mint := ∅
  requests : GoMap Nat Request := ∅
  /-- One entry for each committed disable and delete. -/
  ends : List Id := []
  next : Id := 0

/-! ## Authentication -/

/-- `true` refuses: the owner has a row, and it is disabled. -/
def checkOwnerDisabled (st : State) (owner : Id) : Bool := st.users.lookup owner = some true

def authenticateToken (st : State) (id : Id) : Bool :=
  match st.tokens.lookup id with
  | none => false
  | some t => !tokenIsSpent t && !checkOwnerDisabled st t.owner

/-- A session of a local user is checked against the row on every request. -/
def authenticate (st : State) : Subject → Bool
  | .user id => st.users.lookup id = some false
  | .token id => authenticateToken st id

/-- The user at the start of the subject's chain. -/
def rootOf (st : State) : Subject → Id
  | .user id => id
  | .token id => ((st.tokens.lookup id).map Token.root).getD id

/-! ## Owners -/

def resolveInheritedOwner (st : State) (parent fallback : Id) : Id :=
  ((st.tokens.lookup parent).map Token.owner).getD fallback

def ownerFor (st : State) : Subject → Id
  | .user id => id
  | .token id => resolveInheritedOwner st id id

def ownedStep (owned : List Id) (e : Sigma fun _ : Id => Token) : List Id :=
  if e.2.owner ∈ owned ∧ e.1 ∉ owned then e.1 :: owned else owned

/-- One pass of the closure over token ids. -/
def ownedPass (tokens : GoMap Id Token) (owned : List Id) : List Id :=
  tokens.entries.foldl ownedStep owned

/-- Passes until nothing grows; each that grows adds a token. -/
def ownedClosure (tokens : GoMap Id Token) : (fuel : Nat) → List Id → List Id
  | 0, owned => owned
  | fuel + 1, owned =>
    let grown := ownedPass tokens owned
    if grown.length > owned.length then ownedClosure tokens fuel grown else owned

def revokeOwnedTokens (tokens : GoMap Id Token) (user : Id) : GoMap Id Token :=
  let owned := ownedClosure tokens (tokens.entries.length + 1) [user]
  GoMap.mapValues
    (fun t => if t.owner ∈ owned ∧ ¬ tokenIsSpent t then { t with revoked := true } else t) tokens

/-! ## Steps -/

inductive Action where
  | authenticate (m : Nat) (subject : Subject)
  | insert (m : Nat)
  | revoke (id : Id)
  | purge (id : Id)
  | expire (id : Id)
  | beginDisable (q : Nat) (user : Id)
  | beginEnable (q : Nat) (user : Id)
  | beginDelete (q : Nat) (user : Id)
  | advance (q : Nat)
  deriving DecidableEq

namespace State

def ended (st : State) (user : Id) : Nat := st.ends.count user

def sweep (st : State) (user : Id) : State :=
  { st with tokens := revokeOwnedTokens st.tokens user }

def become (st : State) (q : Nat) (r : Request) : State :=
  { st with requests := AList.insert q r st.requests }

def finish (st : State) (q : Nat) : State := { st with requests := st.requests.erase q }

/-- The next store call of a request. A write that finds no row ends it. -/
def advance (st : State) (q : Nat) : Request → State
  | .disable user =>
    if user ∈ st.users then
      { st.become q (.sweepDisabled user) with
        users := AList.insert user true st.users, ends := user :: st.ends }
    else st.finish q
  | .sweepDisabled user => (st.sweep user).finish q
  | .sweepEnabling user => (st.sweep user).become q (.enable user)
  | .enable user =>
    if user ∈ st.users then { st.finish q with users := AList.insert user false st.users }
    else st.finish q
  | .sweepDeleting user => (st.sweep user).become q (.delete user)
  | .delete user =>
    if user ∈ st.users then
      { st.become q (.sweepDeleted user) with
        users := AList.erase user st.users, ends := user :: st.ends }
    else st.finish q
  | .sweepDeleted user => (st.sweep user).finish q

end State

def step (st : State) : Action → Option State
  | .authenticate m subject =>
    if m ∈ st.mints ∨ ¬ authenticate st subject then none
    else
      let root := rootOf st subject
      some { st with mints := AList.insert m ⟨subject, root, st.ended root⟩ st.mints }
  | .insert m => (st.mints.lookup m).map fun mint =>
    { st with
      tokens := AList.insert st.next
        { owner := ownerFor st mint.subject, root := mint.root, ended := mint.ended } st.tokens
      mints := st.mints.erase m
      next := st.next + 1 }
  | .revoke id => (st.tokens.lookup id).bind fun t =>
    if tokenIsSpent t then none
    else some { st with tokens := AList.insert id { t with revoked := true } st.tokens }
  | .purge id => (st.tokens.lookup id).bind fun t =>
    if tokenIsSpent t then some { st with tokens := st.tokens.erase id } else none
  | .expire id => (st.tokens.lookup id).map fun t =>
    { st with tokens := AList.insert id { t with expired := true } st.tokens }
  | .beginDisable q user =>
    if q ∈ st.requests ∨ user ∉ st.users then none else some (st.become q (.disable user))
  -- The tokens of an account are swept before it is enabled, if it was read as disabled.
  | .beginEnable q user =>
    if q ∈ st.requests then none
    else (st.users.lookup user).map fun disabled =>
      st.become q (if disabled then .sweepEnabling user else .enable user)
  | .beginDelete q user =>
    if q ∈ st.requests ∨ user ∉ st.users then none else some (st.become q (.sweepDeleting user))
  | .advance q => (st.requests.lookup q).map (st.advance q)

/-- Only users at the start, under ids drawn already. -/
def initial (users : GoMap Id Bool) (next : Id) : State := { users, next }

/-! ## The condition -/

/-- The request will sweep the user's tokens: at once, or after a write that finds its row. -/
def Request.willSweep (present : Bool) (user : Id) : Request → Bool
  | .disable u | .delete u => u = user && present
  | .sweepDisabled u | .sweepEnabling u | .sweepDeleting u | .sweepDeleted u => u = user
  | .enable _ => false

def State.sweepAhead (st : State) (user : Id) : Bool :=
  st.requests.entries.any fun e => e.2.willSweep (st.users.lookup user).isSome user

/-- The user's row is disabled, and whoever enables it has yet to sweep. -/
def State.shut (st : State) (user : Id) : Bool :=
  st.users.lookup user = some true && !st.requests.entries.any fun e => e.2 = .enable user

/-- The parent's row is still there to inherit from, and either the user at the start of the
chain was not disabled or deleted since the mint was authenticated, or a sweep of theirs is
still to come. -/
def orderly (st : State) : Action → Bool
  | .insert m =>
    match st.mints.lookup m with
    | none => true
    | some mint =>
      (match mint.subject with
        | .user _ => true
        | .token parent => (st.tokens.lookup parent).isSome) &&
      (st.ended mint.root ≤ mint.ended || st.sweepAhead mint.root || st.shut mint.root)
  | _ => true

end Kconmon.Console.Tokens
