import Kconmon.Checker.Pmtu
import Mathlib.Algebra.Group.Int.Defs

/-!
# What a path MTU verdict rests on

Nothing is assumed of the network: replies need not depend on the size, the clock
may go anywhere and the context may end at any look. What a verdict says is read
off the log of the sends. On a path that carries exactly the sizes up to some
limit, and with time enough, the search ends on that limit.
-/
namespace Kconmon.Checker.Pmtu

open PMTUSearch

def SendResult.refused : SendResult → Bool
  | .tooBig _ => true
  | .echo | .lost | .failed _ => false

/-! ## One send -/

/-- The sends that tries of one size add to the log. -/
structure Tries (size : Int) (attempts : Nat) (err : SendResult) (new : List Sent) : Prop where
  length : new.length ≤ attempts
  sizes : ∀ e ∈ new, e.size = size
  lost : err = .lost → new = List.replicate attempts ⟨size, .lost⟩
  echo : err = .echo → ⟨size, .echo⟩ ∈ new
  refused : (∃ e ∈ new, e.result.refused) ↔ err.refused

/-- The log has grown, and of the details only the number of steps is another. -/
structure Extends (st st' : State) (new : List Sent) : Prop where
  sent : st'.sent = new ++ st.sent
  d : st'.d = { st.d with steps := st.d.steps + new.length }

theorem sendLoop_spec (net : Network) (size : Int) (attempts : Nat) (st : State) :
    ∃ new, Extends st (sendLoop net size attempts .lost st).2 new ∧
      Tries size attempts (sendLoop net size attempts .lost st).1 new := by
  induction attempts generalizing st with
  | zero =>
    refine ⟨[], ⟨rfl, rfl⟩, ⟨Nat.le_refl 0, by simp, fun _ => rfl, (fun h => by cases h), ?_⟩⟩
    simp [sendLoop, SendResult.refused]
  | succ attempts ih =>
    unfold sendLoop
    dsimp only
    cases net.ctxErr st.looks with
    | some err => refine ⟨[], ⟨rfl, rfl⟩, ?_, ?_, ?_, ?_, ?_⟩ <;> simp [SendResult.refused]
    | none =>
      dsimp only
      generalize net.reply st.sent.length size = err
      by_cases lost : err = .lost
      · subst lost
        obtain ⟨new, extended, tries⟩ := ih
          { st with
            looks := st.looks + 1, d := { st.d with steps := st.d.steps + 1 }
            sent := ⟨size, .lost⟩ :: st.sent }
        refine ⟨new ++ [⟨size, .lost⟩], ⟨?_, ?_⟩, ?_, ?_, fun h => ?_, fun h => ?_, ?_⟩
        · simpa using extended.sent
        · refine extended.d.trans ?_
          simp [Nat.add_assoc, Nat.add_comm 1]
        · have := tries.length
          simpa using this
        · intro e mem
          rcases List.mem_append.mp mem with mem | mem
          · exact tries.sizes e mem
          · rw [List.mem_singleton.mp mem]
        · rw [tries.lost h, ← List.replicate_succ']
        · exact List.mem_append_left _ (tries.echo h)
        · refine Iff.trans ?_ tries.refused
          simp [SendResult.refused]
      · simp only [ne_eq, lost, not_false_eq_true, if_true]
        refine ⟨[⟨size, err⟩], ⟨rfl, rfl⟩, by simp, by simp, fun h => absurd h lost, ?_, by simp⟩
        rintro rfl
        exact List.mem_singleton_self _

theorem send_spec (net : Network) (size : Int) (attempts : Nat) (some : 0 < attempts) (st : State) :
    ∃ err st' new, send net size attempts st = (err, st') ∧ Extends st st' new ∧
      Tries size attempts err new := by
  cases attempts with
  | zero => exact absurd some (Nat.lt_irrefl 0)
  | succ attempts =>
    obtain ⟨new, extended, tries⟩ := sendLoop_spec net size (attempts + 1) st
    exact ⟨_, _, new, rfl, extended, tries⟩

/-! ## What a state shows -/

/-- Some send was refused. -/
def State.Refused (st : State) : Prop := ∃ e ∈ st.sent, e.result.refused

/-- The log bears the verdict out. -/
def State.Justified (st : State) (probeMTU : Int) : Prop :=
  match st.d.verdict with
  | some .ok => ⟨probeMTU, .echo⟩ ∈ st.sent
  | some .blackhole =>
    3 ≤ st.sent.count ⟨probeMTU, .lost⟩ ∧ ¬ st.Refused ∧ 2 ≤ st.sent.count ⟨st.d.pathMTU, .echo⟩ ∧
      pmtuBaseSize < st.d.pathMTU ∧ st.d.pathMTU < probeMTU
  | some .reduced => st.Refused ∧ pmtuBaseSize ≤ st.d.pathMTU ∧ st.d.pathMTU < probeMTU
  | some .unreachable => st.d.pathMTU = 0
  | none => False

/-- At most `n` sends, all of them between the base size and the probe. -/
structure State.Bounded (st : State) (probeMTU : Int) (n : Nat) : Prop where
  length : st.sent.length ≤ n
  sizes : ∀ e ∈ st.sent, pmtuBaseSize ≤ e.size ∧ e.size ≤ probeMTU

theorem State.Bounded.mono {st : State} {probeMTU : Int} {n m : Nat}
    (bounded : st.Bounded probeMTU n) (le : n ≤ m) : st.Bounded probeMTU m :=
  ⟨Nat.le_trans bounded.length le, bounded.sizes⟩

section Sends

variable {st st' : State} {new : List Sent} {probeMTU size : Int} {attempts n : Nat}
  {err : SendResult}

section
variable (extended : Extends st st' new)
include extended

theorem Extends.bounded (tries : Tries size attempts err new)
    (lower : pmtuBaseSize ≤ size) (upper : size ≤ probeMTU) (bounded : st.Bounded probeMTU n) :
    st'.Bounded probeMTU (n + attempts) := by
  refine ⟨?_, fun e mem => ?_⟩
  · have := tries.length
    have := bounded.length
    rw [extended.sent, List.length_append]
    omega
  · rw [extended.sent] at mem
    rcases List.mem_append.mp mem with mem | mem
    · rw [tries.sizes e mem]
      exact ⟨lower, upper⟩
    · exact bounded.sizes e mem

theorem Extends.refused (tries : Tries size attempts err new) :
    st'.Refused ↔ err.refused = true ∨ st.Refused := by
  unfold State.Refused
  rw [extended.sent, ← tries.refused]
  simp only [List.mem_append, or_and_right, exists_or]

theorem Extends.mem {e : Sent} (mem : e ∈ st.sent) : e ∈ st'.sent := by
  rw [extended.sent]
  exact List.mem_append_right _ mem

theorem Extends.count_le (e : Sent) : st.sent.count e ≤ st'.sent.count e := by
  rw [extended.sent, List.count_append]
  omega

section
variable (tries : Tries size attempts err new)
include tries

theorem Extends.count_lost
    (lost : err = .lost) :
    st'.sent.count ⟨size, .lost⟩ = attempts + st.sent.count ⟨size, .lost⟩ := by
  rw [extended.sent, List.count_append, tries.lost lost, List.count_replicate_self]

theorem Extends.echo
    (echo : err = .echo) : ⟨size, .echo⟩ ∈ st'.sent := by
  rw [extended.sent]
  exact List.mem_append_left _ (tries.echo echo)

theorem Extends.count_echo
    (echo : err = .echo) : 1 + st.sent.count ⟨size, .echo⟩ ≤ st'.sent.count ⟨size, .echo⟩ := by
  have one : 0 < new.count ⟨size, .echo⟩ := List.count_pos_iff.mpr (tries.echo echo)
  rw [extended.sent, List.count_append]
  omega

end

end

end Sends

/-- The state that `run` returns with. -/
def State.Sound (st : State) (probeMTU : Int) : Prop :=
  st.Bounded probeMTU 22 ∧ st.Justified probeMTU

theorem State.Bounded.noVerdict {st : State} {probeMTU : Int} {n : Nat}
    (bounded : st.Bounded probeMTU n) (few : n ≤ 22) (reason : String) :
    (st.noVerdict reason).Sound probeMTU := ⟨⟨Nat.le_trans bounded.length few, bounded.sizes⟩, rfl⟩

theorem State.Bounded.reduced {st : State} {probeMTU mtu : Int} {n : Nat}
    (bounded : st.Bounded probeMTU n) (few : n ≤ 22) (refused : st.Refused)
    (lower : pmtuBaseSize ≤ mtu) (upper : mtu < probeMTU) :
    (st.conclude .reduced mtu).Sound probeMTU :=
  ⟨⟨Nat.le_trans bounded.length few, bounded.sizes⟩, refused, lower, upper⟩

theorem State.Bounded.ok {st : State} {probeMTU mtu : Int} {n : Nat}
    (bounded : st.Bounded probeMTU n) (few : n ≤ 22) (echo : ⟨probeMTU, .echo⟩ ∈ st.sent) :
    (st.conclude .ok mtu).Sound probeMTU := ⟨⟨Nat.le_trans bounded.length few, bounded.sizes⟩, echo⟩

variable {s : PMTUSearch}

theorem PMTUSearch.usableMTU_iff {mtu : Int} :
    s.usableMTU mtu = true ↔ pmtuBaseSize < mtu ∧ mtu < s.probeMTU := by
  simp [usableMTU]

/-! ## The bisection -/

/-- What the loop knows with so many steps left. -/
structure Explored (s : PMTUSearch) (left : Nat) (b : Bisection) : Prop where
  few : left ≤ pmtuMaxSteps
  bounded : b.st.Bounded s.probeMTU (4 + pmtuMaxSteps - left)
  lower : pmtuBaseSize ≤ b.lo
  order : b.lo < b.hi
  upper : b.hi ≤ s.probeMTU
  refused : b.sawTooBig = true ↔ b.st.Refused
  lost : b.sawTooBig = false → 2 ≤ b.st.sent.count ⟨s.probeMTU, .lost⟩
  crossed : b.lo = pmtuBaseSize ∨ ⟨b.lo, .echo⟩ ∈ b.st.sent

variable {b : Bisection} {left : Nat}

theorem Explored.step (explored : Explored s (left + 1) b) (wide : b.hi - b.lo > 1)
    (net : Network) : (∃ b', s.step net b = .ok b' ∧ Explored s left b') ∨
      ∃ st, s.step net b = .error st ∧ st.Sound s.probeMTU := by
  obtain ⟨few, bounded, lower, order, upper, refused, lost, crossed⟩ := explored
  have above : b.lo < b.lo + (b.hi - b.lo) / 2 := by omega
  have below : b.lo + (b.hi - b.lo) / 2 < b.hi := by omega
  unfold PMTUSearch.step
  dsimp only
  generalize b.lo + (b.hi - b.lo) / 2 = mid at above below
  obtain ⟨err, st, new, sent, extended, tries⟩ := send_spec net mid 1 Nat.one_pos b.st
  rw [sent]
  have bounded' : st.Bounded s.probeMTU (4 + pmtuMaxSteps - left) :=
    (extended.bounded tries (by omega) (by omega) bounded).mono (by omega)
  have refused' := extended.refused tries
  have count := extended.count_le ⟨s.probeMTU, .lost⟩
  have few' : 4 + pmtuMaxSteps - left ≤ 22 := by
    unfold pmtuMaxSteps
    omega
  have quiet (h : err.refused = false) : b.sawTooBig = true ↔ st.Refused := by
    rw [refused', h, refused]
    simp
  cases err with
  | echo =>
    refine .inl ⟨_, rfl, Nat.le_of_succ_le few, bounded', by dsimp only; omega, below, upper,
      quiet rfl, fun h => Nat.le_trans (lost h) count, .inr (extended.echo tries rfl)⟩
  | lost =>
    exact .inl ⟨_, rfl, Nat.le_of_succ_le few, bounded', lower, above, by dsimp only; omega,
      quiet rfl, fun h => Nat.le_trans (lost h) count, crossed.imp_right extended.mem⟩
  | tooBig mtu =>
    have seen : st.Refused := refused'.mpr (.inl rfl)
    dsimp only
    split_ifs with usable
    · obtain ⟨base, small⟩ := usableMTU_iff.mp usable
      exact .inr ⟨_, rfl, bounded'.reduced few' seen (Int.le_of_lt base) small⟩
    · exact .inl ⟨_, rfl, Nat.le_of_succ_le few, bounded', lower, above, by dsimp only; omega,
        iff_of_true rfl seen, (fun h => by cases h), crossed.imp_right extended.mem⟩
  | failed text => exact .inr ⟨_, rfl, bounded'.noVerdict few' _⟩

theorem Explored.bisect (net : Network) (explored : Explored s left b) :
    (∃ b' left', s.bisect net left b = .ok b' ∧ Explored s left' b') ∨
      ∃ st, s.bisect net left b = .error st ∧ st.Sound s.probeMTU := by
  induction left generalizing b with
  | zero => exact .inl ⟨b, 0, rfl, explored⟩
  | succ left ih =>
    unfold bisect
    have bounded := explored.bounded
    split_ifs with wide late
    · exact .inl ⟨_, left + 1, rfl, { explored with bounded := ⟨bounded.1, bounded.2⟩ }⟩
    · have read : Explored s (left + 1) b.read :=
        { explored with bounded := ⟨bounded.1, bounded.2⟩ }
      rcases read.step wide net with ⟨b', stepped, next⟩ | ⟨st, stepped, sound⟩
      · rw [stepped]
        exact ih next
      · rw [stepped]
        exact .inr ⟨st, rfl, sound⟩
    · exact .inl ⟨b, left + 1, rfl, explored⟩

/-! ## The verdict -/

theorem Explored.confirmBlackhole (net : Network) (explored : Explored s left b)
    (above : b.lo ≠ pmtuBaseSize) (silent : b.sawTooBig = false) :
    (s.confirmBlackhole net (b.st.conclude .blackhole b.lo)).Sound s.probeMTU := by
  obtain ⟨few, bounded, lower, order, upper, refused, lost, crossed⟩ := explored
  have bounded : (b.st.conclude .blackhole b.lo).Bounded s.probeMTU 20 :=
    ⟨Nat.le_trans bounded.length (by unfold pmtuMaxSteps; omega), bounded.sizes⟩
  have unrefused : ¬ (b.st.conclude .blackhole b.lo).Refused := by
    intro seen
    rw [refused.mpr seen] at silent
    cases silent
  have once : 1 ≤ (b.st.conclude .blackhole b.lo).sent.count ⟨b.lo, .echo⟩ :=
    List.count_pos_iff.mpr (crossed.resolve_left above)
  have twice : 2 ≤ (b.st.conclude .blackhole b.lo).sent.count ⟨s.probeMTU, .lost⟩ := lost silent
  have mtu : (b.st.conclude .blackhole b.lo).d.pathMTU = b.lo := rfl
  have verdict : (b.st.conclude .blackhole b.lo).d.verdict = some .blackhole := rfl
  unfold PMTUSearch.confirmBlackhole
  generalize b.st.conclude .blackhole b.lo = st₀ at *
  obtain ⟨err, st, new, sent, extended, tries⟩ := send_spec net s.probeMTU 1 Nat.one_pos st₀
  rw [sent]
  have bounded' := extended.bounded tries (by omega) (Int.le_refl _) bounded
  have refused' := extended.refused tries
  have path : st.d.pathMTU = b.lo := (congrArg PMTUDetails.pathMTU extended.d).trans mtu
  cases err with
  | echo => exact bounded'.ok (by omega) (extended.echo tries rfl)
  | failed text => exact bounded'.noVerdict (by omega) _
  | tooBig number =>
    refine bounded'.reduced (by omega) (refused'.mpr (.inl rfl)) ?_ ?_
    all_goals split_ifs with usable
    · exact Int.le_of_lt (usableMTU_iff.mp usable).1
    · exact path ▸ lower
    · exact (usableMTU_iff.mp usable).2
    · rw [path]
      omega
  | lost =>
    dsimp only
    rw [path]
    have thrice := extended.count_lost tries rfl
    have crossedOnce := extended.count_le ⟨b.lo, .echo⟩
    obtain ⟨err', st', new', sent', extended', tries'⟩ := send_spec net b.lo 1 Nat.one_pos st
    rw [sent']
    have bounded'' := extended'.bounded tries' lower (by omega) bounded'
    have refused'' := extended'.refused tries'
    have path' : st'.d.pathMTU = b.lo := (congrArg PMTUDetails.pathMTU extended'.d).trans path
    have verdict' : st'.d.verdict = some .blackhole :=
      (congrArg PMTUDetails.verdict extended'.d).trans
        ((congrArg PMTUDetails.verdict extended.d).trans verdict)
    cases err' with
    | lost => exact bounded''.noVerdict (by omega) _
    | tooBig number => exact bounded''.noVerdict (by omega) _
    | failed text => exact bounded''.noVerdict (by omega) _
    | echo =>
      refine ⟨bounded''.mono (by omega), ?_⟩
      unfold State.Justified
      simp only [verdict']
      have still := extended'.count_le ⟨s.probeMTU, .lost⟩
      have again := extended'.count_echo tries' rfl
      refine ⟨by omega, ?_, by rw [path']; omega, by rw [path']; omega, by rw [path']; omega⟩
      rw [refused'', refused']
      simp [SendResult.refused, unrefused]

theorem Explored.finish (net : Network) (explored : Explored s left b) :
    (s.finish net b).Sound s.probeMTU := by
  have few : 4 + pmtuMaxSteps - left ≤ 22 := by
    unfold pmtuMaxSteps
    omega
  unfold PMTUSearch.finish
  split_ifs with truncated lossy saw
  · exact explored.bounded.noVerdict few _
  · exact explored.bounded.noVerdict few _
  · have order := explored.order
    have upper := explored.upper
    exact explored.bounded.reduced few (explored.refused.mp saw) explored.lower (by omega)
  · have silent : b.sawTooBig = false := by simpa using saw
    exact explored.confirmBlackhole net (fun base => lossy ⟨base, silent⟩) silent

theorem search_sound (net : Network) (size : pmtuBaseSize < s.probeMTU) {sawTooBig : Bool}
    {st : State} (bounded : st.Bounded s.probeMTU 4) (refused : sawTooBig = true ↔ st.Refused)
    (lost : sawTooBig = false → 2 ≤ st.sent.count ⟨s.probeMTU, .lost⟩) :
    (s.search net sawTooBig st).Sound s.probeMTU := by
  have explored : Explored s pmtuMaxSteps ⟨pmtuBaseSize, s.probeMTU, sawTooBig, st⟩ :=
    ⟨Nat.le_refl _, by simpa using bounded, Int.le_refl _, size, Int.le_refl _, refused, lost,
      .inl rfl⟩
  unfold search
  rcases explored.bisect net with ⟨b, left, done, explored⟩ | ⟨st', done, sound⟩
  · rw [done]
    exact explored.finish net
  · rw [done]
    exact sound

theorem probe_sound (net : Network) (size : pmtuBaseSize < s.probeMTU) {st : State}
    (bounded : st.Bounded s.probeMTU 2) (unrefused : ¬ st.Refused) :
    (s.probe net st).Sound s.probeMTU := by
  unfold probe
  obtain ⟨err, st', new, sent, extended, tries⟩ :=
    send_spec net s.probeMTU pmtuAttempts Nat.two_pos st
  rw [sent]
  have bounded' : st'.Bounded s.probeMTU 4 :=
    extended.bounded tries (Int.le_of_lt size) (Int.le_refl _) bounded
  have refused' := extended.refused tries
  cases err with
  | echo => exact bounded'.ok (by omega) (extended.echo tries rfl)
  | failed text => exact bounded'.noVerdict (by omega) _
  | lost =>
    refine search_sound net size bounded' ?_ fun _ => ?_
    · simp [refused', SendResult.refused, unrefused]
    · rw [extended.count_lost tries rfl]
      exact Nat.le_add_right 2 _
  | tooBig mtu =>
    have seen : st'.Refused := refused'.mpr (.inl rfl)
    dsimp only
    split_ifs with usable
    · obtain ⟨base, small⟩ := usableMTU_iff.mp usable
      exact bounded'.reduced (by omega) seen (Int.le_of_lt base) small
    · exact search_sound net size bounded' (iff_of_true rfl seen) fun h => by cases h

/-- Whatever the network does, the log bears the verdict out. -/
theorem run_sound (s : PMTUSearch) (size : 576 ≤ s.probeMTU ∧ s.probeMTU ≤ 65535)
    (net : Network) : (s.run net).sent.length ≤ 22 ∧
      (∀ e ∈ (s.run net).sent, 64 ≤ e.size ∧ e.size ≤ s.probeMTU) ∧
      (s.run net).Justified s.probeMTU := by
  have wide : pmtuBaseSize < s.probeMTU := by
    unfold pmtuBaseSize
    omega
  suffices sound : (s.run net).Sound s.probeMTU from ⟨sound.1.length, sound.1.sizes, sound.2⟩
  unfold run
  let start : State := { d := { probeMTU := s.probeMTU } }
  obtain ⟨err, st, new, sent, extended, tries⟩ :=
    send_spec net pmtuBaseSize pmtuAttempts Nat.two_pos start
  rw [sent]
  have none : start.Bounded s.probeMTU 0 := ⟨Nat.le_refl 0, by simp [start]⟩
  have bounded : st.Bounded s.probeMTU 2 :=
    extended.bounded tries (Int.le_refl _) (Int.le_of_lt wide) none
  have refused := extended.refused tries
  cases err with
  | echo =>
    refine probe_sound net wide bounded ?_
    rw [refused]
    simp [SendResult.refused, State.Refused, start]
  | lost => exact bounded.noVerdict (by omega) _
  | tooBig mtu => exact bounded.noVerdict (by omega) _
  | failed text => exact bounded.noVerdict (by omega) _

/-- A path that loses every size above `limit`, with a clock that stands still. -/
def losesAbove (limit : Int) : Network :=
  ⟨fun _ size => if size ≤ limit then .echo else .lost, fun _ => none, fun _ => 0⟩

theorem run_sound_losesAbove :
    let st := (PMTUSearch.mk 1500 1 10).run (losesAbove 1400)
    st.d.verdict = some .blackhole ∧ st.sent.length ≤ 22 ∧ 3 ≤ st.sent.count ⟨1500, .lost⟩ := by
  intro st
  have verdict : st.d.verdict = some .blackhole := by decide
  obtain ⟨few, -, justified⟩ := run_sound ⟨1500, 1, 10⟩ (by decide) (losesAbove 1400)
  have justified : st.Justified 1500 := justified
  simp only [State.Justified, verdict] at justified
  exact ⟨verdict, few, justified.1⟩

/-! ## A path with a limit -/

/-- Nothing ends the context and the budget never runs out. -/
structure PMTUSearch.Undisturbed (s : PMTUSearch) (net : Network) : Prop where
  calm : ∀ n, net.ctxErr n = none
  time : ∀ n, s.late (net.now n) = false

/-- The path carries every size up to `limit`, and loses or refuses without a usable number
what is larger. -/
structure PMTUSearch.Limited (s : PMTUSearch) (net : Network) (limit : Int) : Prop
    extends s.Undisturbed net where
  carries : ∀ n size, size ≤ limit → net.reply n size = .echo
  stops : ∀ n size, limit < size →
    net.reply n size = .lost ∨ ∃ mtu, net.reply n size = .tooBig mtu ∧ s.usableMTU mtu = false

variable {net : Network}

/-- Without an end to the context a send comes back with a reply to its size. -/
theorem sendLoop_reply (calm : ∀ n, net.ctxErr n = none) (size : Int) (attempts : Nat)
    (err : SendResult) (st : State) :
    ∃ n, (sendLoop net size (attempts + 1) err st).1 = net.reply n size := by
  induction attempts generalizing err st with
  | zero =>
    unfold sendLoop
    simp only [calm]
    split_ifs
    · exact ⟨_, rfl⟩
    · exact ⟨_, rfl⟩
  | succ attempts ih =>
    unfold sendLoop
    simp only [calm]
    split_ifs
    · exact ⟨_, rfl⟩
    · exact ih ..

theorem send_reply (calm : ∀ n, net.ctxErr n = none) (size : Int) (attempts : Nat)
    (some : 0 < attempts) (st : State) :
    ∃ n st' steps, send net size attempts st = (net.reply n size, st') ∧
      st'.d = { st.d with steps } := by
  obtain ⟨err, st', new, sent, extended, -⟩ := send_spec net size attempts some st
  cases attempts with
  | zero => exact absurd some (Nat.lt_irrefl 0)
  | succ attempts =>
    obtain ⟨n, replied⟩ := sendLoop_reply calm size attempts .echo st
    refine ⟨n, st', _, ?_, extended.d⟩
    rw [sent, ← replied]
    exact congrArg (·, st') (congrArg Prod.fst sent).symm

/-- The limit stays inside, and silence leaves no trace of a refusal. -/
structure Narrows (net : Network) (limit : Int) (b b' : Bisection) : Prop where
  lower : b'.lo ≤ limit
  upper : limit < b'.hi
  truncated : b'.st.d.truncated = b.st.d.truncated
  saw : b.sawTooBig = true → b'.sawTooBig = true
  silent : (∀ n size, limit < size → net.reply n size = .lost) → b'.sawTooBig = b.sawTooBig

variable {limit : Int}

theorem Narrows.trans {b' b'' : Bisection} (first : Narrows net limit b b')
    (second : Narrows net limit b' b'') : Narrows net limit b b'' where
  lower := second.lower
  upper := second.upper
  truncated := second.truncated.trans first.truncated
  saw := fun seen => second.saw (first.saw seen)
  silent := fun quiet => (second.silent quiet).trans (first.silent quiet)

theorem step_narrows (limited : s.Limited net limit) (lower : b.lo ≤ limit) (upper : limit < b.hi) :
    ∃ b', s.step net b = .ok b' ∧ Narrows net limit b b' ∧
      (b'.lo = b.lo + (b.hi - b.lo) / 2 ∧ b'.hi = b.hi ∨
        b'.lo = b.lo ∧ b'.hi = b.lo + (b.hi - b.lo) / 2) := by
  unfold step
  dsimp only
  generalize b.lo + (b.hi - b.lo) / 2 = mid
  obtain ⟨n, st, steps, sent, d⟩ := send_reply limited.calm mid 1 Nat.one_pos b.st
  have truncated : st.d.truncated = b.st.d.truncated := by rw [d]
  rw [sent]
  by_cases small : mid ≤ limit
  · rw [limited.carries n mid small]
    exact ⟨_, rfl, ⟨small, upper, truncated, id, fun _ => rfl⟩, .inl ⟨rfl, rfl⟩⟩
  · have large : limit < mid := by omega
    rcases limited.stops n mid large with lost | ⟨mtu, refused, unusable⟩
    · rw [lost]
      exact ⟨_, rfl, ⟨lower, large, truncated, id, fun _ => rfl⟩, .inr ⟨rfl, rfl⟩⟩
    · have loud : ¬ ∀ n size, limit < size → net.reply n size = .lost := by
        intro quiet
        rw [quiet n mid large] at refused
        cases refused
      rw [refused]
      simp only [unusable, Bool.false_eq_true, if_false]
      exact ⟨_, rfl, ⟨lower, large, truncated, fun _ => rfl, fun quiet => absurd quiet loud⟩,
        .inr ⟨rfl, rfl⟩⟩

/-- So many halvings leave nothing between the sizes but the limit itself. -/
theorem bisect_exact (limited : s.Limited net limit) (steps : Nat) (lower : b.lo ≤ limit)
    (upper : limit < b.hi) (width : b.hi - b.lo ≤ 2 ^ steps) :
    ∃ b', s.bisect net steps b = .ok b' ∧ b'.lo = limit ∧ Narrows net limit b b' := by
  have here : Narrows net limit b b := ⟨lower, upper, rfl, id, fun _ => rfl⟩
  induction steps generalizing b with
  | zero => exact ⟨b, rfl, by omega, here⟩
  | succ steps ih =>
    unfold bisect
    by_cases wide : b.hi - b.lo > 1
    · obtain ⟨b', stepped, narrows, halved⟩ := step_narrows limited (b := b.read) lower upper
      have half : b'.hi - b'.lo ≤ 2 ^ steps := by
        rw [Int.pow_succ] at width
        change (b'.lo = b.lo + (b.hi - b.lo) / 2 ∧ b'.hi = b.hi ∨
          b'.lo = b.lo ∧ b'.hi = b.lo + (b.hi - b.lo) / 2) at halved
        omega
      have narrows : Narrows net limit b b' := { narrows with }
      obtain ⟨b'', done, found, rest⟩ := ih narrows.lower narrows.upper half
        ⟨narrows.lower, narrows.upper, rfl, id, fun _ => rfl⟩
      rw [if_pos wide, limited.time, stepped]
      exact ⟨b'', done, found, narrows.trans rest⟩
    · rw [if_neg wide]
      exact ⟨b, rfl, by omega, here⟩

/-- The full size was lost, and so is everything above the limit. -/
theorem search_blackhole (size : s.probeMTU ≤ 65535) (limited : s.Limited net limit)
    (silent : ∀ n size, limit < size → net.reply n size = .lost) (lower : pmtuBaseSize < limit)
    (upper : limit < s.probeMTU) (st : State) :
    (s.search net false st).d.verdict = some .blackhole ∧
      (s.search net false st).d.pathMTU = limit := by
  obtain ⟨b, done, found, narrows⟩ := bisect_exact limited pmtuMaxSteps
    (b := ⟨pmtuBaseSize, s.probeMTU, false, st⟩) (Int.le_of_lt lower) upper
    (by unfold pmtuBaseSize pmtuMaxSteps; dsimp only; omega)
  have quiet : b.sawTooBig = false := narrows.silent silent
  have above : b.lo ≠ pmtuBaseSize := by omega
  unfold search
  rw [done]
  unfold finish
  simp only [above, quiet, false_and, if_false, Bool.false_eq_true]
  unfold confirmBlackhole
  obtain ⟨n, st₁, steps, sent, d⟩ := send_reply limited.calm s.probeMTU 1 Nat.one_pos
    (b.st.conclude .blackhole b.lo)
  rw [sent, silent n s.probeMTU upper]
  have path : st₁.d.pathMTU = limit := by
    rw [d]
    exact found
  dsimp only
  rw [path]
  obtain ⟨n', st₂, steps', sent', d'⟩ := send_reply limited.calm limit 1 Nat.one_pos st₁
  rw [sent', limited.carries n' limit (Int.le_refl _)]
  dsimp only
  rw [d', d]
  exact ⟨rfl, found⟩

/-- The full size was refused. -/
theorem search_reduced (size : s.probeMTU ≤ 65535) (limited : s.Limited net limit)
    (lower : pmtuBaseSize ≤ limit) (upper : limit < s.probeMTU) {st : State}
    (whole : st.d.truncated = false) : (s.search net true st).d.verdict = some .reduced ∧
      (s.search net true st).d.pathMTU = limit := by
  obtain ⟨b, done, found, narrows⟩ := bisect_exact limited pmtuMaxSteps
    (b := ⟨pmtuBaseSize, s.probeMTU, true, st⟩) lower upper
    (by unfold pmtuBaseSize pmtuMaxSteps; dsimp only; omega)
  have saw : b.sawTooBig = true := narrows.saw rfl
  have whole : b.st.d.truncated = false := narrows.truncated.trans whole
  unfold search
  rw [done]
  unfold finish
  simp only [whole, saw, and_false, Bool.false_eq_true, Bool.true_eq_false, if_false, if_true]
  exact ⟨rfl, found⟩

/-- The base size crosses, and the full size comes back with a reply of the path. -/
theorem run_eq_probe (calm : ∀ n, net.ctxErr n = none)
    (base : ∀ n, net.reply n pmtuBaseSize = .echo) :
    ∃ st, s.run net = s.probe net st ∧ st.d.truncated = false := by
  obtain ⟨n, st, steps, sent, d⟩ := send_reply calm pmtuBaseSize pmtuAttempts Nat.two_pos
    { d := { probeMTU := s.probeMTU } }
  refine ⟨st, ?_, by rw [d]⟩
  unfold run
  rw [sent, base]

/-- The search is exact to one byte. -/
theorem run_exact (s : PMTUSearch) (size : 576 ≤ s.probeMTU ∧ s.probeMTU ≤ 65535)
    (net : Network) (undisturbed : s.Undisturbed net) : (∀ limit, 64 < limit → limit < s.probeMTU →
      (∀ n size, net.reply n size = if size ≤ limit then .echo else .lost) →
      (s.run net).d.verdict = some .blackhole ∧ (s.run net).d.pathMTU = limit) ∧
    (∀ limit, 64 ≤ limit → limit < s.probeMTU →
      (∀ n size, size ≤ limit → net.reply n size = .echo) → (∀ n size, limit < size →
        ∃ mtu, net.reply n size = .tooBig mtu ∧ s.usableMTU mtu = false) →
      (s.run net).d.verdict = some .reduced ∧ (s.run net).d.pathMTU = limit) ∧
    ((∀ n size, size ≤ s.probeMTU → net.reply n size = .echo) →
      (s.run net).d.verdict = some .ok ∧ (s.run net).d.pathMTU = s.probeMTU) := by
  have calm := undisturbed.calm
  refine ⟨fun limit lower upper replies => ?_, fun limit lower upper carries refuses => ?_,
    fun carries => ?_⟩
  · have limited : s.Limited net limit := by
      refine ⟨undisturbed, fun n size small => ?_, fun n size large => .inl ?_⟩
      · rw [replies, if_pos small]
      · rw [replies, if_neg (by omega)]
    have silent (n : Nat) (size : Int) (large : limit < size) : net.reply n size = .lost := by
      rw [replies, if_neg (by omega)]
    obtain ⟨st, ran, -⟩ := run_eq_probe (s := s) calm
      fun n => limited.carries n _ (Int.le_of_lt lower)
    obtain ⟨n, st', steps, sent, d⟩ := send_reply calm s.probeMTU pmtuAttempts Nat.two_pos st
    rw [ran]
    unfold probe
    rw [sent, silent n s.probeMTU upper]
    exact search_blackhole size.2 limited silent lower upper st'
  · have limited : s.Limited net limit :=
      ⟨undisturbed, carries, fun n size large => .inr (refuses n size large)⟩
    obtain ⟨st, ran, whole⟩ := run_eq_probe (s := s) calm fun n => carries n _ lower
    obtain ⟨n, st', steps, sent, d⟩ := send_reply calm s.probeMTU pmtuAttempts Nat.two_pos st
    obtain ⟨mtu, refused, unusable⟩ := refuses n s.probeMTU upper
    rw [ran]
    unfold probe
    rw [sent, refused]
    simp only [unusable, Bool.false_eq_true, if_false]
    exact search_reduced size.2 limited lower upper (by rw [d]; exact whole)
  · have base : pmtuBaseSize ≤ s.probeMTU := by
      unfold pmtuBaseSize
      omega
    obtain ⟨st, ran, -⟩ := run_eq_probe (s := s) calm fun n => carries n _ base
    obtain ⟨n, st', steps, sent, d⟩ := send_reply calm s.probeMTU pmtuAttempts Nat.two_pos st
    rw [ran]
    unfold probe
    rw [sent, carries n s.probeMTU (Int.le_refl _)]
    exact ⟨rfl, rfl⟩

theorem run_exact_losesAbove :
    let st := (PMTUSearch.mk 1500 1 10).run (losesAbove 1400)
    st.d.verdict = some .blackhole ∧ st.d.pathMTU = 1400 :=
  (run_exact ⟨1500, 1, 10⟩ (by decide) (losesAbove 1400) ⟨fun _ => rfl, fun _ => rfl⟩).1 1400
    (by decide) (by decide) fun _ _ => rfl

end Kconmon.Checker.Pmtu
