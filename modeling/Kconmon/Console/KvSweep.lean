import Kconmon.Lib.Decimal
import Kconmon.Lib.GoMap
import Kconmon.Lib.Loops

/-!
# The key-value store in memory and its sweep

Entries expire. An operation looks at the expiry itself, and a sweep in the background gives the
memory back: it lists what has expired at one time and deletes it later, batch by batch, unless it
was written again. Some operations read the clock before they take the lock. One that read it
before an entry expired, and comes to the lock when a sweep has deleted the entry, finds nothing
where it would have found a live entry.
-/
namespace Kconmon.Console.Kv
open Lib

/-- `strconv.ParseInt` and `strconv.FormatInt` for 64 bits. -/
structure Codec (V : Type) where
  parse : V → Option Int
  format : Int → V
  parse_format : ∀ n, -(2 ^ 63) ≤ n → n < 2 ^ 63 → parse (format n) = some n

structure KvEntry (V : Type) where
  val : V
  expiresAt : Int
  deriving DecidableEq

def KvEntry.expired {V : Type} (e : KvEntry V) (now : Int) : Bool := e.expiresAt < now

inductive Kind (V : Type) where
  | get
  | set (val : V) (ttl : Int)
  /-- `SetNX` and `SetXX` -/
  | setIf (val : V) (ttl : Int) (wantPresent : Bool)
  | delete
  | deleteIfEqual (val : V)
  | incrWithTTL (ttl : Int)
  deriving DecidableEq

structure Op (V : Type) where
  key : String
  kind : Kind V
  deriving DecidableEq

/-- The operations that read the clock before they take the lock. -/
def Kind.readsClockFirst {V : Type} : Kind V → Bool
  | .setIf .. | .incrWithTTL _ => true
  | _ => false

inductive Result (V : Type) where
  | miss
  | value (val : V)
  | done
  | flag (b : Bool)
  | count (n : Int)
  | notInteger
  deriving DecidableEq

/-- What an operation does to the entry of its key. -/
inductive Write (V : Type) where
  | keep
  | store (e : KvEntry V)
  | remove

variable {V : Type}

def Write.apply (key : String) (m : GoMap String (KvEntry V)) : Write V → GoMap String (KvEntry V)
  | .keep => m
  | .store e => m.insert key e
  | .remove => m.erase key

def kvSweepBatch : Nat := 1024

def reclaim (now : Int) (m : GoMap String (KvEntry V)) (key : String) : GoMap String (KvEntry V) :=
  match m.lookup key with
  | some e => if e.expired now then m.erase key else m
  | none => m

theorem lookup_apply (w : Write V) (m : GoMap String (KvEntry V)) (key other : String) :
    (w.apply key m).lookup other = if other = key then
      (match w with | .keep => m.lookup key | .store e => some e | .remove => none)
      else m.lookup other := by
  cases w <;> simp only [Write.apply] <;> grind

theorem lookup_reclaim_foldl (now : Int) (keys : List String) (m : GoMap String (KvEntry V))
    (key : String) : (keys.foldl (reclaim now) m).lookup key = m.lookup key ∨
      ((keys.foldl (reclaim now) m).lookup key = none ∧
        ∃ e, m.lookup key = some e ∧ e.expired now = true) := by
  refine foldl_invariant (I := fun t : GoMap String (KvEntry V) => t.lookup key = m.lookup key ∨
    (t.lookup key = none ∧ ∃ e, m.lookup key = some e ∧ e.expired now = true)) (.inl rfl)
    fun t k _ ih => ?_
  unfold reclaim
  grind

/-! ## Interleavings -/

inductive Act (V : Type) where
  /-- The locked step of an operation, with the time that it has read. -/
  | op (clock : Int) (op : Op V)
  /-- The start of a sweep, with the time that it has read. -/
  | scan (now : Int) (order : RangeOrder)
  | batch

structure Event (V : Type) where
  time : Int
  act : Act V

structure InProcessKV (V : Type) where
  entries : GoMap String (KvEntry V) := ∅
  /-- What the sweep has still to delete, and the time it goes by. -/
  pending : Int × List String := (0, [])
  answers : List (Op V × Result V) := []

/-- The store `s` that is swept and the store `u` that is not: what is only in `u` has expired. -/
structure Agree (now : Int) (s u : InProcessKV V) : Prop where
  answers : s.answers = u.answers
  entries : ∀ key, s.entries.lookup key = u.entries.lookup key ∨ (s.entries.lookup key = none ∧
    ∃ e, u.entries.lookup key = some e ∧ e.expired now = true)
  pending : s.pending.2 = [] ∨ s.pending.1 ≤ now
  idle : u.pending.2 = []

theorem Agree.mono {s u : InProcessKV V} {now later : Int} (agree : Agree now s u)
    (after : now ≤ later) : Agree later s u := by
  obtain ⟨answers, entries, pending, idle⟩ := agree
  refine ⟨answers, fun key => ?_, by grind, idle⟩
  refine (entries key).imp_right fun ⟨gone, e, held, expired⟩ => ⟨gone, e, held, ?_⟩
  grind [KvEntry.expired]

/-- The time that an increment of the key goes by. -/
def Event.increments (key : String) (ev : Event V) : Option Int :=
  match ev.act with
  | .op clock ⟨other, .incrWithTTL _⟩ => if other = key then some clock else none
  | _ => none

theorem act_of_increments {key : String} {ev : Event V} {clock : Int}
    (incr : ev.increments key = some clock) :
    ∃ ttl, ev.act = .op clock ⟨key, .incrWithTTL ttl⟩ := by
  unfold Event.increments at incr
  grind

section
variable [DecidableEq V]

/-- An operation under the lock, on the entry of its key and with the time it has read. -/
def respond (codec : Codec V) (now : Int) (cur : Option (KvEntry V)) : Kind V → Write V × Result V
  | .get =>
    match cur with
    | some e => if e.expired now then (.keep, .miss) else (.keep, .value e.val)
    | none => (.keep, .miss)
  | .set val ttl => (.store ⟨val, now + ttl⟩, .done)
  | .setIf val ttl wantPresent =>
    let present := cur.any fun e => !e.expired now
    if present ≠ wantPresent then (.keep, .flag false)
    else (.store ⟨val, now + ttl⟩, .flag true)
  | .delete => (.remove, .done)
  | .deleteIfEqual val =>
    match cur with
    | some e => if e.expired now ∨ e.val ≠ val then (.keep, .flag false) else (.remove, .flag true)
    | none => (.keep, .flag false)
  | .incrWithTTL ttl =>
    match cur with
    | some e =>
      if e.expired now then (.store ⟨codec.format 1, now + ttl⟩, .count 1)
      else match codec.parse e.val with
        | none => (.keep, .notInteger)
        | some n => (.store ⟨codec.format (wrap (n + 1)), e.expiresAt⟩, .count (wrap (n + 1)))
    | none => (.store ⟨codec.format 1, now + ttl⟩, .count 1)

/-! ## Runs -/

/-- With `sweeps` off nothing is swept. -/
def step (codec : Codec V) (sweeps : Bool) (s : InProcessKV V) (ev : Event V) : InProcessKV V :=
  match ev.act with
  | .op clock op =>
    let answer := respond codec clock (s.entries.lookup op.key) op.kind
    { s with entries := answer.1.apply op.key s.entries, answers := s.answers ++ [(op, answer.2)] }
  | .scan now order =>
    -- One sweep at a time: the next begins when there is nothing left to delete.
    if sweeps ∧ s.pending.2 = [] then
      let expired := (order.visit 0 s.entries.entries).filter fun e => e.2.expired now
      { s with pending := (now, expired.map (·.1)) }
    else s
  | .batch =>
    { s with
      entries := (s.pending.2.take kvSweepBatch).foldl (reclaim s.pending.1) s.entries
      pending := (s.pending.1, s.pending.2.drop kvSweepBatch) }

def run (codec : Codec V) (sweeps : Bool) (events : List (Event V)) : InProcessKV V :=
  events.foldl (step codec sweeps) {}

/-- Time does not run backwards, and a time is read before it is used; the operations that read it
under the lock read the time of their step. -/
structure WellTimed (events : List (Event V)) : Prop where
  order : events.Pairwise fun a b => a.time ≤ b.time
  ops : ∀ ev ∈ events, ∀ clock op, ev.act = .op clock op →
    clock ≤ ev.time ∧ (op.kind.readsClockFirst = false → clock = ev.time)
  scans : ∀ ev ∈ events, ∀ now order, ev.act = .scan now order → now ≤ ev.time

/-- An operation whose entry was swept had read a time at which the entry was expired. -/
def Timely (codec : Codec V) (events : List (Event V)) : Prop :=
  ∀ before ev, before ++ [ev] <+: events → ∀ clock op, ev.act = .op clock op →
    op.kind.readsClockFirst = true → (run codec true before).entries.lookup op.key = none →
      ∀ e, (run codec false before).entries.lookup op.key = some e → e.expired clock = true

/-! ## Sweeps cannot be told -/

variable {codec : Codec V}

theorem respond_of_expired {e : KvEntry V} {now : Int} (expired : e.expired now = true)
    (kind : Kind V) : respond codec now (some e) kind = respond codec now none kind := by
  cases kind <;> simp [respond, expired]

section
variable {s u : InProcessKV V} {now : Int}

theorem Agree.op (agree : Agree now s u) {clock : Int} {op : Op V}
    (timely : s.entries.lookup op.key = none → ∀ e, u.entries.lookup op.key = some e →
      e.expired clock = true) :
    Agree now (step codec true s ⟨now, .op clock op⟩) (step codec false u ⟨now, .op clock op⟩) := by
  obtain ⟨answers, entries, pending, idle⟩ := agree
  have same : respond codec clock (s.entries.lookup op.key) op.kind =
      respond codec clock (u.entries.lookup op.key) op.kind := by
    rcases entries op.key with same | ⟨gone, e, held, -⟩
    · rw [same]
    · rw [gone, held, respond_of_expired (timely gone e held)]
  refine ⟨by simp [step, answers, same], fun key => ?_, pending, idle⟩
  simp only [step, same, lookup_apply]
  have here := entries key
  have own := entries op.key
  cases (respond codec clock (u.entries.lookup op.key) op.kind).1 <;> grind

theorem Agree.scan (agree : Agree now s u) {read : Int} (past : read ≤ now) (order : RangeOrder) :
    Agree now (step codec true s ⟨now, .scan read order⟩)
      (step codec false u ⟨now, .scan read order⟩) := by
  obtain ⟨answers, entries, pending, idle⟩ := agree
  simp only [step, Bool.false_eq_true, false_and, if_false]
  split
  · exact ⟨answers, entries, .inr past, idle⟩
  · exact ⟨answers, entries, pending, idle⟩

theorem Agree.batch (agree : Agree now s u) :
    Agree now (step codec true s ⟨now, .batch⟩) (step codec false u ⟨now, .batch⟩) := by
  obtain ⟨answers, entries, pending, idle⟩ := agree
  refine ⟨answers, fun key => ?_, by grind [step], by simp [step, idle]⟩
  simp only [step, idle, List.take_nil, List.foldl_nil]
  have swept := lookup_reclaim_foldl s.pending.1 (s.pending.2.take kvSweepBatch) s.entries key
  rcases pending with none_left | past
  · simpa [none_left] using entries key
  · have := entries key
    grind [KvEntry.expired]

end

/-- A store that is swept and one that is not, after the same events. -/
theorem agree_run {events : List (Event V)} (timed : WellTimed events)
    (timely : Timely codec events) {later : Int} (after : ∀ ev ∈ events, ev.time ≤ later) :
    Agree later (run codec true events) (run codec false events) := by
  induction events using List.reverseRecOn generalizing later with
  | nil => exact ⟨rfl, fun _ => .inl rfl, .inl rfl, rfl⟩
  | append_singleton events ev ih =>
    obtain ⟨before, -, order⟩ := List.pairwise_append.mp timed.order
    have agree : Agree ev.time _ _ := ih
      ⟨before, fun x listed => timed.ops x (by simp [listed]),
        fun x listed => timed.scans x (by simp [listed])⟩
      (fun l x part => timely l x (part.trans (List.prefix_append ..)))
      fun x listed => order x listed ev (by simp)
    refine Agree.mono ?_ (after ev (by simp))
    rw [run, run, List.foldl_append, List.foldl_append, ← run, ← run]
    simp only [List.foldl_cons, List.foldl_nil]
    have ops := timed.ops ev (by simp)
    have scans := timed.scans ev (by simp)
    have early := timely events ev List.prefix_rfl
    obtain ⟨time, act⟩ := ev
    cases act with
    | op clock op =>
      refine agree.op fun gone e held => ?_
      cases first : op.kind.readsClockFirst with
      | true => exact early clock op rfl first gone e held
      | false =>
        -- The operation goes by the time of this step.
        obtain rfl := (ops clock op rfl).2 first
        have := agree.entries op.key
        grind
    | scan read visit => exact agree.scan (scans read visit rfl) visit
    | batch => exact agree.batch

/-! ## Counters -/

/-- The answers to the increments of a key. -/
def counts (key : String) (answers : List (Op V × Result V)) : List (Result V) :=
  answers.filterMap fun a =>
    match a.1.kind with
    | .incrWithTTL _ => if a.1.key = key then some a.2 else none
    | _ => none

/-- The entry of the key is incremented while it is live, and otherwise left as it is. -/
def Continues (codec : Codec V) (sweeps : Bool) (key : String) (s : InProcessKV V) (ev : Event V) :
    Prop :=
  match ev.increments key with
  | some clock => ∀ e, s.entries.lookup key = some e → e.expired clock = false
  | none => (step codec sweeps s ev).entries.lookup key = s.entries.lookup key

section
variable {sweeps : Bool} {key : String} {s : InProcessKV V} {ev : Event V}

theorem counts_of_not_increments (other : ev.increments key = none) :
    counts key (step codec sweeps s ev).answers = counts key s.answers := by
  obtain ⟨time, act⟩ := ev
  cases act with
  | op clock op =>
    obtain ⟨k, kind⟩ := op
    cases kind <;> simp_all [step, counts, Event.increments]
  | scan now order => grind [step]
  | batch => rfl

theorem step_fresh {clock : Int} (incr : ev.increments key = some clock)
    (lapsed : ∀ e, s.entries.lookup key = some e → e.expired clock = true) : ∃ expiresAt,
      (step codec sweeps s ev).entries.lookup key = some ⟨codec.format 1, expiresAt⟩ ∧
        counts key (step codec sweeps s ev).answers = counts key s.answers ++ [.count 1] := by
  obtain ⟨ttl, act⟩ := act_of_increments incr
  rcases Option.eq_none_or_eq_some (s.entries.lookup key) with held | ⟨e, held⟩
  · simp [step, act, respond, held, Write.apply, counts]
  · simp [step, act, respond, held, lapsed e held, Write.apply, counts]

theorem step_count {clock n expiresAt : Int} (incr : ev.increments key = some clock)
    (held : s.entries.lookup key = some ⟨codec.format n, expiresAt⟩)
    (live : KvEntry.expired ⟨codec.format n, expiresAt⟩ clock = false) (low : 0 ≤ n)
    (high : n + 1 < 2 ^ 63) :
    (step codec sweeps s ev).entries.lookup key = some ⟨codec.format (n + 1), expiresAt⟩ ∧
      counts key (step codec sweeps s ev).answers = counts key s.answers ++ [.count (n + 1)] := by
  obtain ⟨ttl, act⟩ := act_of_increments incr
  have parse := codec.parse_format n (by omega) (by omega)
  simp [step, act, respond, held, live, parse, wrap_of_lt (by omega) high, Write.apply, counts]

/-- While the entry of a counter lives, each increment adds one and the expiry stays. -/
theorem counts_life {n expiresAt : Int} (low : 0 ≤ n)
    (held : s.entries.lookup key = some ⟨codec.format n, expiresAt⟩) {life : List (Event V)}
    (continues : ∀ l ev, l ++ [ev] <+: life →
      Continues codec sweeps key (l.foldl (step codec sweeps) s) ev)
    (high : n + life.countP (·.increments key |>.isSome) < 2 ^ 63) :
    (life.foldl (step codec sweeps) s).entries.lookup key =
        some ⟨codec.format (n + life.countP (·.increments key |>.isSome)), expiresAt⟩ ∧
      counts key (life.foldl (step codec sweeps) s).answers = counts key s.answers ++
        (List.range (life.countP (·.increments key |>.isSome))).map fun i => .count (n + i + 1) :=
          by
  induction life using List.reverseRecOn with
  | nil => simpa using held
  | append_singleton life ev ih =>
    have here := continues life ev List.prefix_rfl
    rw [List.countP_append] at high ⊢
    rw [List.foldl_append, List.foldl_cons, List.foldl_nil]
    obtain ⟨now, answers⟩ := ih
      (fun l x part => continues l x (part.trans (List.prefix_append ..))) (by omega)
    unfold Continues at here
    cases incr : ev.increments key with
    | none =>
      simp only [incr] at here
      simpa [here, counts_of_not_increments incr, incr] using And.intro now answers
    | some clock =>
      simp only [incr] at here
      have one : List.countP (fun x : Event V => (x.increments key).isSome) [ev] = 1 := by
        simp [incr]
      rw [one] at high ⊢
      obtain ⟨next, answer⟩ : (step codec sweeps _ ev).entries.lookup key = _ ∧ _ :=
        step_count incr now (here _ now) (by omega) (by omega)
      rw [next, answer, answers, List.range_succ]
      exact ⟨by simp [Int.add_assoc], by simp⟩

end

/-- If no operation goes by a time at which an entry was live that a sweep has deleted since, every
operation answers as without sweeps. Swept or not, the increments of a key answer one, two and so on
as long as its entry lives, and the expiry stays. -/
theorem sweep_unobservable (codec : Codec V) {events : List (Event V)} (timed : WellTimed events) :
    (Timely codec events → (run codec true events).answers = (run codec false events).answers) ∧
      ∀ sweeps key before first life clock, events = before ++ first :: life →
        first.increments key = some clock →
        (∀ e, (run codec sweeps before).entries.lookup key = some e → e.expired clock = true) →
        (∀ l ev, l ++ [ev] <+: life →
          Continues codec sweeps key (run codec sweeps (before ++ first :: l)) ev) →
        1 + life.countP (·.increments key |>.isSome) < 2 ^ 63 →
        counts key (run codec sweeps events).answers =
          counts key (run codec sweeps before).answers ++
            (List.range (1 + life.countP (·.increments key |>.isSome))).map (fun i =>
              .count (i + 1)) ∧ ((run codec sweeps events).entries.lookup key).map (·.expiresAt) =
            ((run codec sweeps (before ++ [first])).entries.lookup key).map (·.expiresAt) := by
  constructor
  · intro timely
    cases last : events.getLast? with
    | none =>
      obtain rfl := List.getLast?_eq_none_iff.mp last
      rfl
    | some ev =>
      obtain ⟨before, rfl⟩ := List.getLast?_eq_some_iff.mp last
      have order := (List.pairwise_append.mp timed.order).2.2
      have agree : Agree ev.time _ _ := agree_run timed timely fun x listed => by
        rcases List.mem_append.mp listed with old | new
        · exact order x old ev (by simp)
        · simp [List.mem_singleton.mp new]
      exact agree.answers
  · rintro sweeps key before first life clock rfl incr lapsed continues few
    obtain ⟨expiresAt, held, one⟩ := step_fresh (s := run codec sweeps before) incr lapsed
    have same : ∀ l, run codec sweeps (before ++ first :: l) =
        l.foldl (step codec sweeps) (step codec sweeps (run codec sweeps before) first) := by
      simp [run]
    simp only [same] at continues ⊢
    obtain ⟨entry, answers⟩ := counts_life (by decide) held continues (by omega)
    rw [answers, one, entry, List.foldl_nil, held, Nat.add_comm, List.range_succ_eq_map]
    refine ⟨?_, rfl⟩
    simp [Function.comp_def, Int.add_comm, Int.add_left_comm]

end

/-- The decimal numbers of `strconv`. -/
def decimal : Codec Bytes where
  parse := Decimal.readSigned 64
  format n := if 0 ≤ n then Decimal.write n.toNat else Decimal.minus :: Decimal.write (-n).toNat
  parse_format n low high := by
    split <;> rename_i sign
    · rw [Decimal.readSigned_write_of_lt (by omega), Int.toNat_of_nonneg sign]
    · have value : -((-n).toNat : Int) = n := by omega
      simp only [Decimal.readSigned, Decimal.read_write, if_true]
      exact Option.filter_eq_some_iff.mpr ⟨congrArg some value, by simpa using ⟨low, high⟩⟩

theorem exists_take_of_prefix {α : Type*} {before l : List α} {x : α} (part : before ++ [x] <+: l) :
    ∃ i, l[i]? = some x ∧ before = l.take i := by
  obtain ⟨rest, rfl⟩ := part
  exact ⟨before.length, by simp, by simp⟩

/-- An increment of the key at a time, by the clock as it was read before. -/
def incr (time clock : Int) : Event Bytes := ⟨time, .op clock ⟨"k", .incrWithTTL 10⟩⟩

/-- A counter that lives until time 10 and is swept at time 11, and the increments after the sweep
by clocks that were read when it had expired. -/
def swept : List (Event Bytes) :=
  [incr 0 0, incr 4 3, ⟨11, .scan 11 .stored⟩, ⟨11, .batch⟩, incr 12 11, incr 13 12]

theorem sweep_unobservable_swept : (run decimal true (swept.take 4)).entries.lookup "k" = none ∧
      (run decimal true swept).answers = (run decimal false swept).answers ∧
      counts "k" (run decimal true swept).answers = [.count 1, .count 2, .count 1, .count 2] := by
  have timed : WellTimed swept :=
    ⟨by simp [swept, incr], by simp [swept, incr, Kind.readsClockFirst], by simp [swept, incr]⟩
  obtain ⟨same, counted⟩ := sweep_unobservable decimal timed
  refine ⟨by decide, same fun before ev part clock op act first gone e held => ?_, ?_⟩
  · obtain ⟨i, here, rfl⟩ := exists_take_of_prefix part
    have bound : i < 6 := (List.getElem?_eq_some_iff.mp here).1
    interval_cases i <;> cases here <;> cases act
    · cases held
    · exact absurd gone (by decide)
    · -- the counter is gone, and had expired when the clock was read
      have left : (run decimal false (swept.take 4)).entries.lookup "k" =
        some ⟨Decimal.write 2, 10⟩ := by decide
      cases left.symm.trans held
      decide
    · exact absurd gone (by decide)
  · refine (counted true "k" (swept.take 4)
      (incr 12 11) [incr 13 12] 11 rfl rfl ?_ ?_ ?_).1.trans ?_
    · intro e held
      cases held
    · intro l ev part
      obtain ⟨i, here, rfl⟩ := exists_take_of_prefix part
      have bound : i < 1 := (List.getElem?_eq_some_iff.mp here).1
      interval_cases i
      cases here
      intro e held
      have renewed : (run decimal true (swept.take 5)).entries.lookup "k" =
        some ⟨Decimal.write 1, 21⟩ := by decide
      cases renewed.symm.trans held
      decide
    · decide
    · decide

/-! ## A sweep between the clock and the lock -/

/-- The sweep comes while an increment waits for the lock that read the clock at time 5. -/
def late : List (Event Bytes) := [incr 0 0, ⟨11, .scan 11 .stored⟩, ⟨11, .batch⟩, incr 12 5]

theorem sweep_resets_counter : WellTimed late ∧
    counts "k" (run decimal true late).answers = [.count 1, .count 1] ∧
    counts "k" (run decimal false late).answers = [.count 1, .count 2] := by
  refine ⟨⟨by simp [late, incr], ?_, ?_⟩, by decide, by decide⟩
  · simp [late, incr, Kind.readsClockFirst]
  · simp [late, incr]

end Kconmon.Console.Kv
