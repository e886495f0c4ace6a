import Mathlib.Data.List.Basic

/-!
# The path MTU search

The search sends datagrams that may not be fragmented and looks for the largest
that crosses: the base size, the full size, a bisection between them and, for a
black hole, one more send of either. The path, the context and the clock are what
they answer at each look; the log of the sends is kept, newest first.
-/
namespace Kconmon.Checker.Pmtu

def pmtuBaseSize : Int := 64
def pmtuMaxSteps : Nat := 16
def pmtuAttempts : Nat := 2
def pmtuConfirmSends : Nat := 2

/-- What a send comes back with: nothing wrong, `errPMTULost`, a `*pmtuTooBigError`, or any
other error with its text. -/
inductive SendResult where
  | echo
  | lost
  | tooBig (mtu : Int)
  | failed (err : String)
  deriving DecidableEq

def SendResult.text : SendResult → String
  | .echo => "<nil>"
  | .lost => "pmtu: datagram lost"
  | .tooBig mtu => "pmtu: path refused the datagram, reported MTU " ++ toString mtu
  | .failed err => err

inductive PMTUVerdict where
  | ok
  | reduced
  | blackhole
  | unreachable
  deriving DecidableEq

structure PMTUDetails where
  probeMTU : Int
  pathMTU : Int := 0
  verdict : Option PMTUVerdict := none
  steps : Nat := 0
  truncated : Bool := false
  deriving DecidableEq

structure Sent where
  size : Int
  result : SendResult
  deriving DecidableEq

/-- The reply to the `n`-th send, what `ctx.Err()` says at the `n`-th look and what the clock
says at the `n`-th reading. -/
structure Network where
  reply : Nat → Int → SendResult
  ctxErr : Nat → Option String
  now : Nat → Int

structure State where
  d : PMTUDetails
  reason : String := ""
  sent : List Sent := []
  looks : Nat := 0
  reads : Nat := 0
  deriving DecidableEq

structure PMTUSearch where
  probeMTU : Int
  timeout : Int
  deadline : Int
  deriving DecidableEq

/-- The attempts that are left; `err` is what the last one came back with. -/
def sendLoop (net : Network) (size : Int) : Nat → SendResult → State → SendResult × State
  | 0, err, st => (err, st)
  | attempts + 1, _, st =>
    let looked := { st with looks := st.looks + 1 }
    match net.ctxErr st.looks with
    | some err => (.failed err, looked)
    | none =>
      let err := net.reply st.sent.length size
      let st := { looked with
        d := { st.d with steps := st.d.steps + 1 }, sent := ⟨size, err⟩ :: st.sent }
      if err ≠ .lost then (err, st) else sendLoop net size attempts err st

def send (net : Network) (size : Int) (attempts : Nat) (st : State) : SendResult × State :=
  sendLoop net size attempts .echo st

def State.conclude (st : State) (verdict : PMTUVerdict) (pathMTU : Int) : State :=
  { st with d := { st.d with verdict := some verdict, pathMTU } }

def State.noVerdict (st : State) (reason : String) : State :=
  { st.conclude .unreachable 0 with reason }

def stoppedReason (err : SendResult) : String := "the probe stopped before a verdict: " ++ err.text

/-- `lo` crossed, `hi` did not. -/
structure Bisection where
  lo : Int
  hi : Int
  sawTooBig : Bool
  st : State
  deriving DecidableEq

/-- The clock is read. -/
def Bisection.read (b : Bisection) : Bisection :=
  { b with st := { b.st with reads := b.st.reads + 1 } }

def Bisection.truncate (b : Bisection) : Bisection :=
  { b with st := { b.st with d := { b.st.d with truncated := true } } }

namespace PMTUSearch

/-- A router's number is compared with the probe, not with the size just sent. -/
def usableMTU (s : PMTUSearch) (mtu : Int) : Bool := mtu > pmtuBaseSize && mtu < s.probeMTU

/-- One send and the confirmation no longer fit. -/
def late (s : PMTUSearch) (now : Int) : Bool :=
  now + (1 + pmtuConfirmSends : Nat) * s.timeout > s.deadline

/-- The loop's body after its look at the clock; an error is a state that `run` returns. -/
def step (s : PMTUSearch) (net : Network) (b : Bisection) : Except State Bisection :=
  let mid := b.lo + (b.hi - b.lo) / 2
  let (err, st) := send net mid 1 b.st
  match err with
  | .echo => .ok { b with lo := mid, st }
  | .tooBig mtu =>
    if s.usableMTU mtu then .error (st.conclude .reduced mtu)
    else .ok { b with hi := mid, sawTooBig := true, st }
  | .lost => .ok { b with hi := mid, st }
  | .failed _ => .error (st.noVerdict (stoppedReason err))

def bisect (s : PMTUSearch) (net : Network) : Nat → Bisection → Except State Bisection
  | 0, b => .ok b
  | steps + 1, b =>
    if b.hi - b.lo > 1 then
      if s.late (net.now b.st.reads) then .ok b.read.truncate
      else do bisect s net steps (← s.step net b.read)
    else .ok b

/-- It does not look at the deadline: the bisection kept the time for both sends in reserve. -/
def confirmBlackhole (s : PMTUSearch) (net : Network) (st : State) : State :=
  let (err, st) := send net s.probeMTU 1 st
  match err with
  | .echo => st.conclude .ok s.probeMTU
  | .tooBig mtu => st.conclude .reduced (if s.usableMTU mtu then mtu else st.d.pathMTU)
  | .failed _ => st.noVerdict (stoppedReason err)
  | .lost =>
    let (err, st) := send net st.d.pathMTU 1 st
    match err with
    | .echo => st
    | .lost => st.noVerdict (toString st.d.pathMTU ++
        " bytes crossed once and were lost when sent again: a lossy path, not an MTU verdict")
    | .tooBig _ | .failed _ => st.noVerdict (stoppedReason err)

/-- What `run` makes of a bisection that has ended. -/
def finish (s : PMTUSearch) (net : Network) (b : Bisection) : State :=
  if b.lo = pmtuBaseSize ∧ b.st.d.truncated then
    b.st.noVerdict ("the search ran out of its time budget (half the pmtu interval, or the " ++
      "run's deadline) before any size above " ++ toString pmtuBaseSize ++ " bytes crossed")
  else if b.lo = pmtuBaseSize ∧ b.sawTooBig = false then
    b.st.noVerdict ("the full size and every size tried above " ++ toString pmtuBaseSize ++
      " bytes were lost: a lossy path, not an MTU verdict")
  else if b.sawTooBig then b.st.conclude .reduced b.lo
  else s.confirmBlackhole net (b.st.conclude .blackhole b.lo)

def search (s : PMTUSearch) (net : Network) (sawTooBig : Bool) (st : State) : State :=
  match s.bisect net pmtuMaxSteps ⟨pmtuBaseSize, s.probeMTU, sawTooBig, st⟩ with
  | .error st => st
  | .ok b => s.finish net b

/-- The part of `run` that begins with the full size. -/
def probe (s : PMTUSearch) (net : Network) (st : State) : State :=
  let (err, st) := send net s.probeMTU pmtuAttempts st
  match err with
  | .echo => st.conclude .ok s.probeMTU
  | .tooBig mtu =>
    if s.usableMTU mtu then st.conclude .reduced mtu else s.search net true st
  | .lost => s.search net false st
  | .failed _ => st.noVerdict (stoppedReason err)

def run (s : PMTUSearch) (net : Network) : State :=
  let (err, st) := send net pmtuBaseSize pmtuAttempts { d := { probeMTU := s.probeMTU } }
  match err with
  | .echo => s.probe net st
  | .lost => st.noVerdict ("the peer's echo did not answer a " ++ toString pmtuBaseSize ++
      "-byte datagram; reachability is the udp plane's verdict")
  | .tooBig _ | .failed _ => st.noVerdict (stoppedReason err)

end PMTUSearch

end Kconmon.Checker.Pmtu
