import Kconmon.Lib.GoMap
import Kconmon.Lib.Runs
import Kconmon.Lib.Ttl

/-!
# Session records shared by replicas

The record of one session and its write lock are two keys of a store that any number of
replicas share. A request slides the idle deadline (`Stage.touch` on) or refreshes the
access token at the identity provider (`Stage.refresh` on); both write the record back
under the lock, and a logout deletes it without. A step is one call to the store or to
the provider.

A `Get` that slides the deadline does so in a touch of its own, and one that finds the
record expired deletes it as a logout does. Refresh tokens are numbered in the order the
provider issued them. `log` records what no key holds.
-/
namespace Kconmon.Console.SessionStore
open Lib Ttl

/-- Milliseconds. -/
abbrev Time := Nat

def second : Time := 1000
def minute : Time := 60 * second

def touchLockTTL : Time := 2 * second
def accessTokenRefreshMargin : Time := 2 * minute
def refreshTimeout : Time := 15 * second
def refreshLockTTL : Time := refreshTimeout + 5 * second

/-- `none` is the zero time, and no refresh token. -/
structure Session where
  username : String
  displayName : String
  groups : List String
  issuedAt : Time
  expiresAt : Option Time
  lastSeenAt : Option Time
  refreshToken : Option Nat
  accessExpiry : Option Time
  deriving DecidableEq

/-- The place of the session's refresh token in the order of issue, 0 without one. -/
def generationOf : Option Nat → Nat
  | none => 0
  | some token => token + 1

def Session.generation (sess : Session) : Nat := generationOf sess.refreshToken

/-! ## The store's own functions -/

/-- Without an idle limit there is no deadline. -/
def idleDeadline (idle : Time) (sess : Session) : Option Time :=
  if idle = 0 then none else some (sess.lastSeenAt.getD sess.issuedAt + idle)

inductive LoadError where
  | notFound
  | expired
  deriving DecidableEq

def past (now : Time) : Option Time → Bool
  | none => false
  | some deadline => deadline < now

def loadFresh (idle : Time) (record : Cell Session) (now : Time) : Except LoadError Session :=
  match record.get now with
  | none => .error .notFound
  | some sess =>
    if past now sess.expiresAt || past now (idleDeadline idle sess) then .error .expired
    else .ok sess

/-- The key never outlives the absolute deadline by more than a second. -/
def rewrite (record : Cell Session) (now : Time) (sess : Session) : Cell Session × Bool :=
  record.setXX now sess (max (sess.expiresAt.getD 0 - now) second)

/-! ## What the provider's answer changes -/

/-- A verified id token: whom it names, the groups claim if there is one, and a name to show. -/
structure Claims where
  subject : String
  groups : Option (List String)
  displayName : String
  deriving DecidableEq

def identityPrefixOIDC : String := "oidc:"

def adoptRefreshedClaims (sess : Session) : Option Claims → Session
  | none => sess
  | some claims =>
    if claims.subject = "" ∨ identityPrefixOIDC ++ claims.subject ≠ sess.username then sess
    else match claims.groups with
      | none => sess
      | some groups =>
        { sess with groups
                    displayName := if claims.displayName = "" then sess.displayName
                      else claims.displayName }

def adoptRefreshed (now : Time) (current : Session) (token : Nat) (expiry : Option Time)
    (idToken : Option Claims) : Session :=
  let next := adoptRefreshedClaims
    { current with refreshToken := some token, accessExpiry := expiry } idToken
  if next.accessExpiry.isNone ∧ next.refreshToken.isSome then
    { next with accessExpiry := some (now + 5 * minute) }
  else next

inductive Answer where
  | success (expiry : Option Time) (idToken : Option Claims)
  | refused
  | failed
  deriving DecidableEq

/-! ## Requests -/

/-- What a request does next, and the token of the lock it holds. -/
inductive Stage where
  | touch
  | touchLoad (token : Nat)
  | touchWrite (token : Nat) (sess : Session)
  | refresh (deadline : Time)
  | poll (deadline : Time)
  | refreshLoad (token : Nat)
  | post (token : Nat) (current : Session)
  | refreshWrite (token : Nat) (used : Option Nat) (next : Session)
  | refuse (token : Nat)
  | unlock (token : Nat)
  deriving DecidableEq

def Stage.lockToken : Stage → Option Nat
  | .touch | .refresh _ | .poll _ => none
  | .touchLoad token | .touchWrite token _ | .refreshLoad token | .post token _
  | .refreshWrite token _ _ | .refuse token | .unlock token => some token

inductive Event where
  | posted (token : Option Nat)
  | touched (sess : Session)
  | refreshed (used : Option Nat) (sess : Session)
  | deleted
  deriving DecidableEq

/-- The record an event wrote. -/
def Event.stored : Event → Option Session
  | .touched sess | .refreshed _ sess => some sess
  | .posted _ | .deleted => none

structure State where
  now : Time
  record : Cell Session
  lock : Cell Nat := none
  requests : GoMap Nat Stage := ∅
  /-- Lock tokens drawn so far. -/
  drawn : Nat := 0
  /-- Refresh tokens issued so far. -/
  issued : Nat
  log : List Event := []

inductive Action where
  | touch (q : Nat)
  | authenticate (q : Nat)
  | advance (q : Nat)
  | answer (q : Nat) (a : Answer)
  | giveUp (q : Nat)
  | logout
  | tick (elapsed : Time)
  deriving DecidableEq

namespace State

def goto (st : State) (q : Nat) (stage : Stage) : State :=
  { st with requests := AList.insert q stage st.requests }

def finish (st : State) (q : Nat) : State := { st with requests := st.requests.erase q }

def note (st : State) (e : Event) : State := { st with log := e :: st.log }

def delete (st : State) : State := { st with record := none, log := .deleted :: st.log }

/-- A fresh lock token is drawn and offered; a request that gets the lock goes on to `won`. -/
def lockSession (st : State) (q : Nat) (ttl : Time) (won : Nat → Stage) (lost : State → State) :
    State :=
  match st.lock.setNX st.now st.drawn ttl with
  | (lock, true) => { st with lock, drawn := st.drawn + 1 }.goto q (won st.drawn)
  | (_, false) => lost { st with drawn := st.drawn + 1 }

/-- The access token is good for longer than the margin, or never lapses. -/
def current (st : State) (sess : Session) : Bool :=
  match sess.accessExpiry with
  | none => true
  | some expiry => st.now + accessTokenRefreshMargin < expiry

/-- A refresh that waits for the lock serves the session while the access token still holds. -/
def usable (st : State) (sess : Session) : Bool :=
  match sess.accessExpiry with
  | none => true
  | some expiry => st.now < expiry

def write (st : State) (q token : Nat) (sess : Session) (e : Session → Event) : State :=
  match rewrite st.record st.now sess with
  | (record, true) => { st with record, log := e sess :: st.log }.goto q (.unlock token)
  | (_, false) => st.goto q (.unlock token)

end State

section
variable (idle : Time)

/-- The next call of a request to the store. -/
def State.advance (st : State) (q : Nat) : Stage → Option State
  | .touch => some (st.lockSession q touchLockTTL .touchLoad (·.finish q))
  | .touchLoad token =>
    match loadFresh idle st.record st.now with
    | .error _ => some (st.goto q (.unlock token))
    | .ok sess => some (st.goto q (.touchWrite token sess))
  | .touchWrite token sess =>
    some (st.write q token { sess with lastSeenAt := some st.now } .touched)
  | .refresh deadline =>
    some (st.lockSession q refreshLockTTL .refreshLoad (·.goto q (.poll deadline)))
  | .poll deadline =>
    match loadFresh idle st.record st.now with
    | .error _ => some (st.finish q)
    | .ok sess =>
      if st.usable sess ∨ deadline < st.now then some (st.finish q)
      else some (st.goto q (.refresh deadline))
  | .refreshLoad token =>
    match loadFresh idle st.record st.now with
    | .error _ => some (st.goto q (.unlock token))
    | .ok sess =>
      if st.current sess then some (st.goto q (.unlock token))
      else some (st.goto q (.post token sess))
  -- the provider's answer is a step of its own
  | .post _ _ => none
  | .refreshWrite token used next => some (st.write q token next (.refreshed used))
  | .refuse token => some (st.delete.goto q (.unlock token))
  | .unlock token =>
    some ({ st with lock := st.lock.deleteIfEqual st.now token }.finish q)

/-- The call to the provider: the token is posted, and a success brings the next one. -/
def State.answer (st : State) (q : Nat) (token : Nat) (current : Session) : Answer → State
  | .success expiry idToken =>
    { st.note (.posted current.refreshToken) with issued := st.issued + 1 }.goto q
      (.refreshWrite token current.refreshToken
        (adoptRefreshed st.now current st.issued expiry idToken))
  | .refused => (st.note (.posted current.refreshToken)).goto q (.refuse token)
  | .failed => (st.note (.posted current.refreshToken)).goto q (.unlock token)

/-- The first read of a request, and whether it has a refresh to make. -/
def State.authenticate (st : State) (q : Nat) : Option State :=
  match loadFresh idle st.record st.now with
  | .error _ => none
  | .ok sess =>
    if sess.refreshToken = none ∨ st.current sess then none
    else some (st.goto q (.refresh (st.now + refreshLockTTL)))

def step (st : State) : Action → Option State
  | .touch q => if q ∈ st.requests then none else some (st.goto q .touch)
  | .authenticate q => if q ∈ st.requests then none else st.authenticate idle q
  | .advance q => (st.requests.lookup q).bind (st.advance idle q)
  | .answer q a =>
    match st.requests.lookup q with
    | some (.post token current) => some (st.answer q token current a)
    | _ => none
  -- a request that waits for the lock may be cancelled
  | .giveUp q =>
    match st.requests.lookup q with
    | some (.refresh _) | some (.poll _) => some (st.finish q)
    | _ => none
  | .logout => some st.delete
  | .tick elapsed => some { st with now := st.now + elapsed }

end

/-- A session as it was created, under an id of its own. -/
def initial (now : Time) (created : Session) : State :=
  { now, record := some ⟨created, now + max (created.expiresAt.getD 0 - now) second⟩
    issued := created.generation }

/-! ## The assumption on locks -/

/-- No time passes that would let a lock lapse in the hands of its holder. -/
def inTime (st : State) : Action → Bool
  | .tick elapsed =>
    st.requests.entries.all (fun e => e.2.lockToken.isNone) ||
      (st.lock.get (st.now + elapsed)).isSome
  | _ => true

end Kconmon.Console.SessionStore
