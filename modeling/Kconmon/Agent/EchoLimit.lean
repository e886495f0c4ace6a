import Kconmon.Lib.GoMap
import Kconmon.Lib.Loops
import Mathlib.Data.List.Dedup
import Mathlib.Data.List.Induction
import Mathlib.Tactic.Linarith

/-!
# Limits on echo replies

Every source of datagrams has a token bucket, which is refilled when its next datagram arrives. The
buckets are bounded in number. When there is no room for a new one, the idle ones go, and after
them as many others as needed, in the order of the map. An idle bucket would be full, as a new one
is, so that its eviction changes nothing.
-/
namespace Kconmon.Agent.EchoLimit
open Lib

def echoBurst : ℚ := 256
def echoRate : ℚ := 64
def echoMaxSources : Nat := 4096

/-- Times are in nanoseconds. -/
def second : Int := 1000000000

def echoIdleFull : Int := 256 * second / 64
def keep : Nat := echoMaxSources * 7 / 8

def seconds (d : Int) : ℚ := d / second

structure EchoBucket where
  tokens : ℚ
  last : Int
  nonneg : 0 ≤ tokens

def EchoBucket.refill (b : EchoBucket) (now : Int) : ℚ :=
  min echoBurst (b.tokens + max 0 (seconds (now - b.last)) * echoRate)

theorem EchoBucket.refill_nonneg (b : EchoBucket) (now : Int) : 0 ≤ b.refill now := by
  have := b.nonneg
  have := le_max_left 0 (seconds (now - b.last))
  exact le_min (by norm_num [echoBurst]) (by unfold echoRate; linarith)

variable {Src : Type} [DecidableEq Src]

/-- The idle buckets go, then any others until there are fewer than `keep`. -/
def evict (ord : RangeOrder) (now : Int) (m : GoMap Src EchoBucket) : GoMap Src EchoBucket :=
  let busy := GoMap.sieve (fun b => !(echoIdleFull ≤ now - b.last : Bool)) m
  (ord.visit 0 busy.entries).foldl
    (fun m e => if m.entries.length < keep then m else m.erase e.1) busy

/-- One token is spent, if there is one. -/
def spend (tokens : ℚ) (now : Int) (nonneg : 0 ≤ tokens) : EchoBucket where
  tokens := if 1 ≤ tokens then tokens - 1 else tokens
  last := now
  nonneg := by split <;> linarith

/-- The limiter's answer to a datagram; `clear` makes room. -/
def allow (clear : Int → GoMap Src EchoBucket → GoMap Src EchoBucket) (m : GoMap Src EchoBucket)
    (src : Src) (now : Int) : GoMap Src EchoBucket × Bool :=
  match m.lookup src with
  | some b => (m.insert src (spend (b.refill now) now (b.refill_nonneg now)), 1 ≤ b.refill now)
  | none =>
    let m := if echoMaxSources ≤ m.entries.length then clear now m else m
    (m.insert src (spend echoBurst now (by norm_num [echoBurst])), (1 : ℚ) ≤ echoBurst)

/-- A datagram, with the order in which a sweep would visit the map. -/
structure Arrival (Src : Type) where
  src : Src
  time : Int
  order : RangeOrder

structure Reply (Src : Type) where
  src : Src
  time : Int
  allowed : Bool

/-- The limiter and what it has answered. -/
structure Limiter (Src : Type) where
  buckets : GoMap Src EchoBucket := ∅
  replies : List (Reply Src) := []

def receive (clear : RangeOrder → Int → GoMap Src EchoBucket → GoMap Src EchoBucket)
    (l : Limiter Src) (a : Arrival Src) : Limiter Src :=
  let answer := allow (clear a.order) l.buckets a.src a.time
  { buckets := answer.1, replies := l.replies ++ [⟨a.src, a.time, answer.2⟩] }

def limited (arrivals : List (Arrival Src)) : Limiter Src := arrivals.foldl (receive evict) {}

/-- The same limiter without any eviction. -/
def unbounded (arrivals : List (Arrival Src)) : Limiter Src :=
  arrivals.foldl (receive fun _ _ m => m) {}

/-! ## What a datagram finds -/

/-- The tokens that a datagram finds. -/
def available (m : GoMap Src EchoBucket) (src : Src) (now : Int) : ℚ :=
  (m.lookup src).elim echoBurst (·.refill now)

theorem available_nonneg (m : GoMap Src EchoBucket) (src : Src) (now : Int) :
    0 ≤ available m src now := by
  unfold available
  cases m.lookup src with
  | none => norm_num [echoBurst]
  | some b => exact b.refill_nonneg now

theorem available_le (m : GoMap Src EchoBucket) (src : Src) (now : Int) :
    available m src now ≤ echoBurst := by
  unfold available
  cases m.lookup src with
  | none => exact le_rfl
  | some b => exact min_le_left ..

/-- An idle bucket is a full one. -/
theorem refill_of_idle {b : EchoBucket} {now : Int} (idle : echoIdleFull ≤ now - b.last) :
    b.refill now = echoBurst := by
  have long : (4 : ℚ) ≤ seconds (now - b.last) := by
    have cast : ((4000000000 : Int) : ℚ) ≤ ((now - b.last : Int) : ℚ) := Int.cast_le.mpr idle
    rw [seconds, le_div_iff₀ (by norm_num [second])]
    norm_num [second] at cast ⊢
    exact cast
  have := b.nonneg
  have := le_max_right 0 (seconds (now - b.last))
  exact min_eq_left (by unfold echoRate echoBurst; linarith)

/-- The buckets that are left when a datagram needs one. -/
def room (clear : Int → GoMap Src EchoBucket → GoMap Src EchoBucket) (m : GoMap Src EchoBucket)
    (src : Src) (now : Int) : GoMap Src EchoBucket :=
  if m.lookup src = none ∧ echoMaxSources ≤ m.entries.length then clear now m else m

theorem allow_eq (clear : Int → GoMap Src EchoBucket → GoMap Src EchoBucket)
    (m : GoMap Src EchoBucket) (src : Src) (now : Int) :
    allow clear m src now = ((room clear m src now).insert src
      (spend (available m src now) now (available_nonneg m src now)),
        decide (1 ≤ available m src now)) := by
  rcases Option.eq_none_or_eq_some (m.lookup src) with held | ⟨b, held⟩ <;>
    simp [allow, room, available, held]

section
variable {clear : Int → GoMap Src EchoBucket → GoMap Src EchoBucket} {m : GoMap Src EchoBucket}
  {src : Src} {now : Int}

theorem seconds_add (a b c : Int) : seconds (c - a) = seconds (c - b) + seconds (b - a) := by
  simp only [seconds, ← add_div, ← Int.cast_add]
  congr 2
  omega

theorem seconds_nonneg {a b : Int} (le : a ≤ b) : 0 ≤ seconds (b - a) :=
  div_nonneg (Int.cast_nonneg (by omega)) (by norm_num [second])

/-- What one datagram leaves of the tokens, with what comes in until the next. -/
theorem available_allow_self (later : Int) : available (allow clear m src now).1 src later =
    min echoBurst ((if 1 ≤ available m src now then available m src now - 1
      else available m src now) + max 0 (seconds (later - now)) * echoRate) := by
  rw [allow_eq, available, AList.lookup_insert, Option.elim_some]
  rfl

/-- If only idle buckets go, nothing changes for the other sources. -/
theorem available_allow_other {other : Src} (differ : other ≠ src)
    (idle : ∀ b, m.lookup other = some b → (room clear m src now).lookup other = some b ∨
      ((room clear m src now).lookup other = none ∧ echoIdleFull ≤ now - b.last))
    (none_new : m.lookup other = none → (room clear m src now).lookup other = none)
    {later : Int} (after : now ≤ later) :
    available (allow clear m src now).1 other later = available m other later := by
  rw [allow_eq, available, AList.lookup_insert_ne differ, available]
  rcases Option.eq_none_or_eq_some (m.lookup other) with held | ⟨b, held⟩
  · rw [held, none_new held]
  · rcases idle b held with kept | ⟨gone, idle⟩
    · rw [held, kept]
    · rw [held, gone, Option.elim_none, Option.elim_some, refill_of_idle (by omega)]

end

/-! ## Evictions -/

/-- The loop of `evict` that deletes what it visits. -/
def trim (m : GoMap Src EchoBucket) (l : List (Sigma fun _ : Src => EchoBucket)) :
    GoMap Src EchoBucket :=
  l.foldl (fun m e => if m.entries.length < keep then m else m.erase e.1) m

theorem trim_of_lt {m : GoMap Src EchoBucket} (few : m.entries.length < keep)
    (l : List (Sigma fun _ : Src => EchoBucket)) : trim m l = m := by
  induction l with
  | nil => rfl
  | cons e l ih => rw [trim, List.foldl_cons, if_pos few, ← trim, ih]

theorem length_trim {m : GoMap Src EchoBucket} {l : List (Sigma fun _ : Src => EchoBucket)}
    (visited : ∀ src ∈ m.keys, src ∈ l.map (·.1)) : (trim m l).entries.length < keep := by
  induction l generalizing m with
  | nil =>
    have empty : m.keys = [] := List.eq_nil_iff_forall_not_mem.mpr (by simpa using visited)
    have none_left : m.entries = [] := by simpa [AList.keys, List.keys] using empty
    simp [trim, none_left, keep, echoMaxSources]
  | cons e l ih =>
    by_cases few : m.entries.length < keep
    · rwa [trim_of_lt few]
    · rw [trim, List.foldl_cons, if_neg few, ← trim]
      refine ih fun src listed => ?_
      rw [AList.keys_erase, (AList.keys_nodup m).mem_erase_iff] at listed
      simpa [listed.1] using visited src listed.2

theorem lookup_trim (m : GoMap Src EchoBucket) (l : List (Sigma fun _ : Src => EchoBucket))
    (src : Src) : (trim m l).lookup src = m.lookup src ∨ (trim m l).lookup src = none := by
  refine foldl_invariant (I := fun t : GoMap Src EchoBucket =>
    t.lookup src = m.lookup src ∨ t.lookup src = none) (.inl rfl) fun t e _ ih => ?_
  grind

theorem length_evict (ord : RangeOrder) (now : Int) (m : GoMap Src EchoBucket) :
    (evict ord now m).entries.length < keep := by
  refine length_trim fun src listed => ?_
  rw [List.Perm.mem_iff ((ord.perm 0 _).map _)]
  exact listed

theorem length_insert (m : GoMap Src EchoBucket) (src : Src) (b : EchoBucket) :
    (m.insert src b).entries.length =
      if (m.lookup src).isSome then m.entries.length else m.entries.length + 1 := by
  have keys : ∀ m : GoMap Src EchoBucket, m.entries.length = m.keys.length := by
    simp [AList.keys, List.keys]
  have mem : (m.lookup src).isSome ↔ src ∈ m.keys := AList.lookup_isSome
  rw [keys, keys, AList.keys_insert, List.length_cons]
  by_cases held : src ∈ m.keys
  · have := List.length_pos_of_mem held
    rw [if_pos (mem.mpr held), List.length_erase_of_mem held]
    omega
  · rw [if_neg (mt mem.mp held), List.erase_of_not_mem held]

/-- There are never more buckets than allowed. -/
theorem length_limited (arrivals : List (Arrival Src)) :
    (limited arrivals).buckets.entries.length ≤ echoMaxSources := by
  refine foldl_invariant
    (I := fun l : Limiter Src => l.buckets.entries.length ≤ echoMaxSources) (by simp)
    fun l a _ few => ?_
  simp only [receive, allow_eq, length_insert, room]
  have trimmed := length_evict a.order a.time l.buckets
  have bound : keep < echoMaxSources := by decide
  rcases Option.eq_none_or_eq_some (l.buckets.lookup a.src) with held | ⟨b, held⟩
  · grind
  · simpa [held] using few

theorem lookup_room_evict (ord : RangeOrder) (m : GoMap Src EchoBucket) (src other : Src)
    (now : Int) : (room (evict ord) m src now).lookup other = m.lookup other ∨
      (room (evict ord) m src now).lookup other = none := by
  unfold room
  split
  · rcases lookup_trim (GoMap.sieve (fun b => !(echoIdleFull ≤ now - b.last : Bool)) m)
      (ord.visit 0 _) other with same | gone
    · rw [evict, ← trim, same, GoMap.lookup_sieve]
      cases m.lookup other <;> grind
    · exact .inr gone
  · exact .inl rfl

/-! ## Whole runs -/

/-- The sources that were seen less than four seconds ago. -/
def seen (arrivals : List (Arrival Src)) (now : Int) : List Src :=
  ((arrivals.filter fun a => now - a.time < echoIdleFull).map (·.src)).dedup

/-- A datagram for which the limiter evicts. -/
def Evicts (arrivals : List (Arrival Src)) (a : Arrival Src) : Prop :=
  (limited arrivals).buckets.lookup a.src = none ∧
    echoMaxSources ≤ (limited arrivals).buckets.entries.length

/-- At every eviction fewer than `keep` sources were seen of late. -/
def Quiet (arrivals : List (Arrival Src)) : Prop :=
  ∀ before a, before ++ [a] <+: arrivals → Evicts before a → (seen before a.time).length < keep

/-- The source's bucket never goes unless it is idle. -/
def NeverEvictedBusy (src : Src) (arrivals : List (Arrival Src)) : Prop :=
  ∀ before a, before ++ [a] <+: arrivals → ∀ b, (limited before).buckets.lookup src = some b →
    (limited (before ++ [a])).buckets.lookup src = none → echoIdleFull ≤ a.time - b.last

/-- The replies to a source within a window. -/
def allowedIn (src : Src) (t₀ t₁ : Int) (replies : List (Reply Src)) : Nat :=
  replies.countP fun r => r.src = src ∧ r.allowed = true ∧ t₀ ≤ r.time ∧ r.time ≤ t₁

section
variable {arrivals : List (Arrival Src)} {a : Arrival Src}

theorem limited_append (arrivals : List (Arrival Src)) (a : Arrival Src) :
    limited (arrivals ++ [a]) = receive evict (limited arrivals) a := by
  simp [limited]

theorem last_of_lookup {src : Src} {b : EchoBucket}
    (held : (limited arrivals).buckets.lookup src = some b) :
    ∃ a ∈ arrivals, a.src = src ∧ a.time = b.last := by
  induction arrivals using List.reverseRecOn generalizing b with
  | nil => simp [limited] at held
  | append_singleton arrivals a ih =>
    rw [limited_append, receive, allow_eq, GoMap.lookup_insert_if] at held
    have := lookup_room_evict a.order (limited arrivals).buckets a.src src a.time
    by_cases own : src = a.src
    · rw [if_pos own] at held
      exact ⟨a, by simp, own.symm, congrArg EchoBucket.last (Option.some.inj held)⟩
    · grind

/-- If few sources were seen of late, only idle buckets go. -/
theorem evict_of_few (ord : RangeOrder) {now : Int} (few : (seen arrivals now).length < keep) :
    evict ord now (limited arrivals).buckets =
      GoMap.sieve (fun b => !(echoIdleFull ≤ now - b.last : Bool)) (limited arrivals).buckets := by
  refine trim_of_lt (lt_of_le_of_lt ?_ few) _
  have recent : ∀ src ∈ (GoMap.sieve (fun b => !(echoIdleFull ≤ now - b.last : Bool))
      (limited arrivals).buckets).keys, src ∈ seen arrivals now := by
    intro src listed
    obtain ⟨b, held⟩ := Option.isSome_iff_exists.mp (AList.lookup_isSome.mpr listed)
    rw [GoMap.lookup_sieve, Option.filter_eq_some_iff] at held
    obtain ⟨x, known, rfl, time⟩ := last_of_lookup held.1
    have busy : now - b.last < echoIdleFull := by simpa using held.2
    simp only [seen, List.mem_dedup, List.mem_map, List.mem_filter, decide_eq_true_eq]
    exact ⟨x, ⟨known, time ▸ busy⟩, rfl⟩
  have fits := (List.subperm_of_subset (AList.keys_nodup _) recent).length_le
  simpa [AList.keys, List.keys] using fits

theorem Quiet.of_append (quiet : Quiet (arrivals ++ [a])) : Quiet arrivals :=
  fun before x part => quiet before x (part.trans (List.prefix_append ..))

/-- The limiter cannot be told from one that never evicts. -/
theorem replies_eq_unbounded (clock : arrivals.Pairwise fun a b => a.time ≤ b.time)
    (quiet : Quiet arrivals) : (limited arrivals).replies = (unbounded arrivals).replies ∧
      ∀ src later, (∀ a ∈ arrivals, a.time ≤ later) →
        available (limited arrivals).buckets src later =
        available (unbounded arrivals).buckets src later := by
  induction arrivals using List.reverseRecOn with
  | nil => simp [limited, unbounded]
  | append_singleton arrivals a ih =>
    obtain ⟨before, -, order⟩ := List.pairwise_append.mp clock
    obtain ⟨replies, same⟩ := ih before quiet.of_append
    have now := same a.src a.time fun x listed => order x listed a (by simp)
    rw [limited_append, unbounded, List.foldl_append, ← unbounded, List.foldl_cons, List.foldl_nil]
    refine ⟨by simp [receive, replies, allow_eq, now], fun src later after => ?_⟩
    have after' : a.time ≤ later := after a (by simp)
    by_cases own : src = a.src
    · subst own
      simp only [receive, available_allow_self, now]
    · have gone := lookup_room_evict a.order (limited arrivals).buckets a.src src a.time
      have bounded : available (receive evict (limited arrivals) a).buckets src later =
          available (limited arrivals).buckets src later := by
        refine available_allow_other own (fun b held => ?_) (by grind) after'
        unfold room
        split <;> rename_i evicts
        · rw [evict_of_few a.order (quiet arrivals a List.prefix_rfl evicts)]
          grind
        · exact .inl held
      have free : available (receive (fun _ _ m => m) (unbounded arrivals) a).buckets src later =
          available (unbounded arrivals).buckets src later :=
        available_allow_other own (fun b held => .inl (by simpa [room] using held))
          (by simp [room]) after'
      rw [bounded, free]
      exact same src later fun x listed => after x (by simp [listed])

theorem allowedIn_receive (clear : RangeOrder → Int → GoMap Src EchoBucket → GoMap Src EchoBucket)
    (l : Limiter Src) (a : Arrival Src) (src : Src) (t₀ t₁ : Int) :
    allowedIn src t₀ t₁ (receive clear l a).replies = allowedIn src t₀ t₁ l.replies +
      if a.src = src ∧ 1 ≤ available l.buckets a.src a.time ∧ t₀ ≤ a.time ∧ a.time ≤ t₁ then 1
      else 0 := by
  simp [allowedIn, receive, allow_eq, List.countP_append, List.countP_cons]

theorem allowedIn_eq_zero (src : Src) {t₀ : Int} (t₁ : Int) (early : ∀ a ∈ arrivals, a.time < t₀) :
    allowedIn src t₀ t₁ (limited arrivals).replies = 0 := by
  induction arrivals using List.reverseRecOn with
  | nil => rfl
  | append_singleton arrivals a ih =>
    have last := early a (by simp)
    rw [limited_append, allowedIn_receive, ih fun x listed => early x (by simp [listed]), if_neg]
    omega

/-- The replies so far and the tokens that are left never exceed what has come in. -/
theorem allowedIn_add_available_le {src : Src} {t₀ t₁ : Int}
    (clock : arrivals.Pairwise fun a b => a.time ≤ b.time) (kept : NeverEvictedBusy src arrivals)
    (window : t₀ ≤ t₁) : (allowedIn src t₀ t₁ (limited arrivals).replies : ℚ) ≤
        echoBurst + seconds (t₁ - t₀) * echoRate ∧
      ∀ later, (∀ a ∈ arrivals, a.time ≤ later) → t₀ ≤ later →
        (allowedIn src t₀ t₁ (limited arrivals).replies : ℚ) +
          available (limited arrivals).buckets src later ≤
            echoBurst + seconds (later - t₀) * echoRate := by
  have grows : ∀ {t}, t₀ ≤ t → 0 ≤ seconds (t - t₀) * echoRate := fun le =>
    mul_nonneg (seconds_nonneg le) (by norm_num [echoRate])
  induction arrivals using List.reverseRecOn with
  | nil =>
    have := grows window
    refine ⟨?_, fun later _ after => ?_⟩
    · simp [limited, allowedIn, echoBurst] at this ⊢
      linarith
    · have := grows after
      simpa [limited, allowedIn, available] using this
  | append_singleton arrivals a ih =>
    obtain ⟨before, -, order⟩ := List.pairwise_append.mp clock
    obtain ⟨bound, left⟩ := ih before fun l x part => kept l x (part.trans (List.prefix_append ..))
    have earlier : ∀ x ∈ arrivals, x.time ≤ a.time := fun x listed => order x listed a (by simp)
    rw [limited_append, allowedIn_receive]
    by_cases own : a.src = src
    · subst own
      by_cases early : a.time < t₀
      · have none_yet := allowedIn_eq_zero a.src t₁ fun x listed =>
          (earlier x listed).trans_lt early
        rw [none_yet, if_neg (by omega)]
        refine ⟨by simpa [none_yet] using bound, fun later _ after => ?_⟩
        have := available_le (receive evict (limited arrivals) a).buckets a.src later
        have := grows after
        simp only [Nat.cast_zero, zero_add]
        linarith
      · have spent := left a.time earlier (by omega)
        have steady : ∀ {t}, a.time ≤ t → seconds (t - t₀) * echoRate =
            seconds (t - a.time) * echoRate + seconds (a.time - t₀) * echoRate := fun _ => by
          rw [← add_mul, ← seconds_add]
        have flows : ∀ {t}, a.time ≤ t → 0 ≤ seconds (t - a.time) * echoRate := fun le =>
          mul_nonneg (seconds_nonneg le) (by norm_num [echoRate])
        refine ⟨?_, fun later after _ => ?_⟩
        · split <;> rename_i counts
          · have := steady counts.2.2.2
            have := flows counts.2.2.2
            push_cast
            linarith [counts.2.1]
          · simpa using bound
        · have after := after a (by simp)
          have found : available (receive evict (limited arrivals) a).buckets a.src later ≤ _ :=
            (available_allow_self later).le.trans (min_le_right ..)
          rw [max_eq_right (seconds_nonneg after)] at found
          have := steady after
          split <;> split at found <;> push_cast <;> linarith
    · have same : ∀ later, a.time ≤ later → available (receive evict (limited arrivals) a).buckets
          src later = available (limited arrivals).buckets src later := by
        intro later after
        have gone := lookup_room_evict a.order (limited arrivals).buckets a.src src a.time
        refine available_allow_other (Ne.symm own) (fun b held => ?_) (by grind) after
        refine gone.imp (·.trans held) fun gone => ⟨gone, ?_⟩
        refine kept arrivals a List.prefix_rfl b held ?_
        rw [limited_append, receive, allow_eq, GoMap.lookup_insert_if, if_neg (Ne.symm own), gone]
      rw [if_neg (by simp [own]), Nat.add_zero]
      refine ⟨bound, fun later after window => ?_⟩
      rw [same later (after a (by simp))]
      exact left later (fun x listed => after x (by simp [listed])) window

/-- The limiter is bounded; as long as few sources are busy at each eviction it answers as one that
never evicts; and a source that keeps its bucket while it is busy gets at most the burst and what
comes in during a window. -/
theorem echoLimiter_bounds (clock : arrivals.Pairwise fun a b => a.time ≤ b.time) :
    (limited arrivals).buckets.entries.length ≤ 4096 ∧
      (Quiet arrivals → (limited arrivals).replies = (unbounded arrivals).replies) ∧
      ∀ src, NeverEvictedBusy src arrivals → ∀ t₀ t₁, t₀ ≤ t₁ →
        (allowedIn src t₀ t₁ (limited arrivals).replies : ℚ) ≤ 256 + 64 * seconds (t₁ - t₀) := by
  refine ⟨length_limited arrivals, fun quiet => (replies_eq_unbounded clock quiet).1,
    fun src kept t₀ t₁ window => ?_⟩
  have := (allowedIn_add_available_le clock kept window).1
  rwa [echoBurst, echoRate, mul_comm] at this

/-- Where only idle buckets go at each eviction, no source loses a busy one. -/
theorem Quiet.neverEvictedBusy (quiet : Quiet arrivals) (src : Src) :
    NeverEvictedBusy src arrivals := by
  intro before a part b held gone
  rw [limited_append, receive, allow_eq, GoMap.lookup_insert_if] at gone
  split at gone
  · cases gone
  · unfold room at gone
    split at gone <;> rename_i evicts
    · rw [evict_of_few a.order (quiet before a part evicts), GoMap.lookup_sieve, held] at gone
      simpa [Option.filter] using gone
    · rw [held] at gone
      cases gone

theorem length_limited_le (arrivals : List (Arrival Src)) :
    (limited arrivals).buckets.entries.length ≤ arrivals.length := by
  induction arrivals using List.reverseRecOn with
  | nil => simp [limited]
  | append_singleton arrivals a ih =>
    have trimmed := length_evict a.order a.time (limited arrivals).buckets
    have bound : keep < echoMaxSources := by decide
    rw [limited_append, receive, allow_eq]
    simp only [length_insert, room, List.length_append, List.length_singleton]
    grind

end

/-! ## A full limiter -/

/-- One datagram from each of the sources below `n`. -/
def crowd (n : Nat) : List (Arrival Nat) := (List.range n).map (⟨·, 0, .stored⟩)

theorem limited_crowd {n : Nat} (few : n ≤ echoMaxSources) :
    (limited (crowd n)).buckets.entries.length = n ∧
      ∀ src, ((limited (crowd n)).buckets.lookup src).isSome = decide (src < n) := by
  induction n with
  | zero => simp [crowd, limited]
  | succ n ih =>
    obtain ⟨length, held⟩ := ih (by omega)
    have next : crowd (n + 1) = crowd n ++ [⟨n, 0, .stored⟩] := by simp [crowd, List.range_succ]
    have roomy : ¬ echoMaxSources ≤ n := by omega
    rw [next, limited_append, receive, allow_eq]
    refine ⟨by rw [length_insert]; simp [held, room, length, roomy], fun src => ?_⟩
    rw [GoMap.lookup_insert_if, apply_ite Option.isSome]
    simp only [room, length, roomy, and_false, if_false, held]
    grind

/-- After a crowd one of its sources is heard again, and then a new one. -/
def crowded (n : Nat) : List (Arrival Nat) :=
  crowd n ++ [⟨0, 2 * second, .stored⟩] ++ [⟨n, 5 * second, .stored⟩]

theorem prefix_snoc {α : Type*} {before l : List α} {a b : α} (part : before ++ [a] <+: l ++ [b]) :
    (before = l ∧ a = b) ∨ before ++ [a] <+: l := by
  simpa using List.prefix_concat_iff.mp part

theorem crowded_quiet {n : Nat} (full : n = echoMaxSources) : Quiet (crowded n) := by
  intro before a part evicts
  rcases prefix_snoc part with ⟨rfl, rfl⟩ | part
  · -- only the source that was heard again is busy
    have idle : (crowd n).filter (fun a => 5 * second - a.time < echoIdleFull) = [] := by
      rw [crowd, List.filter_map, List.map_eq_nil_iff, List.filter_eq_nil_iff]
      simp [second, echoIdleFull]
    rw [seen, List.filter_append, idle]
    simp [second, echoIdleFull, keep, echoMaxSources]
  · rcases prefix_snoc part with ⟨rfl, rfl⟩ | part
    · have held := (limited_crowd full.le).2 0
      rw [evicts.1, full] at held
      exact absurd held (by decide)
    · have fits := part.length_le
      have := evicts.2.trans (length_limited_le before)
      rw [crowd, List.length_map, List.length_range, List.length_append] at fits
      grind

theorem echoLimiter_bounds_crowded :
    (∃ before a, before ++ [a] = crowded echoMaxSources ∧ Evicts before a) ∧
      (limited (crowded echoMaxSources)).replies = (unbounded (crowded echoMaxSources)).replies ∧
      (allowedIn 0 0 (5 * second) (limited (crowded echoMaxSources)).replies : ℚ) ≤
        256 + 64 * 5 := by
  generalize full : echoMaxSources = n
  have early : ∀ a ∈ crowd n, a.time = 0 := by simp [crowd]
  have clock : (crowded n).Pairwise fun a b => a.time ≤ b.time := by
    refine List.pairwise_append.mpr ⟨List.pairwise_append.mpr ⟨?_, by simp, ?_⟩, by simp, ?_⟩
    · simp [crowd, List.pairwise_iff_getElem]
    · grind [second]
    · grind [second]
  obtain ⟨-, same, rate⟩ := echoLimiter_bounds clock
  have quiet := crowded_quiet full.symm
  refine ⟨⟨_, _, rfl, ?_⟩, same quiet, ?_⟩
  · obtain ⟨length, held⟩ := limited_crowd full.ge
    have positive : 0 < n := full ▸ by decide
    have again := held 0
    have new : (limited (crowd n)).buckets.lookup n = none := by simpa using held n
    have kept : ∀ clear now, room clear (limited (crowd n)).buckets 0 now =
        (limited (crowd n)).buckets := fun clear now => if_neg (by grind)
    rw [Evicts, limited_append, receive, allow_eq, kept, length_insert, GoMap.lookup_insert_if]
    grind
  · have := rate 0 (quiet.neverEvictedBusy 0) 0 (5 * second) (by decide)
    norm_num [seconds, second] at this ⊢
    exact this

end Kconmon.Agent.EchoLimit
