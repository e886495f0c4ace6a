import Kconmon.Console.SessionStore

/-!
# Session records are safe across replicas

Only one request holds the lock, and what a holder read is the last record stored, unless
the record is gone. So every write carries a refresh token no older than the one before
it, no token is posted again once a refresh that used it was stored, and a deleted record
stays deleted (`records_safe`). The lock is a lease: the result is about runs in which
its holders finish in time.
-/
namespace Kconmon.Console.SessionStore
open Lib Ttl

/-! ## What the log may say -/

/-- What may come after an event: no write after a delete, and after a refresh neither another
post of the token it used nor a write of an older one. -/
def Event.MayFollow (later earlier : Event) : Prop :=
  match earlier with
  | .deleted => later.stored = none
  | .refreshed used sess => later ≠ .posted used ∧
      ∀ sess', later.stored = some sess' → sess.generation ≤ sess'.generation
  | .posted _ | .touched _ => True

/-- The record that was stored last. -/
def lastStored (created : Session) (log : List Event) : Session :=
  (log.findSome? Event.stored).getD created

variable {e : Event}

@[simp] theorem lastStored_unstored {created : Session} {log : List Event}
    (unstored : e.stored = none) : lastStored created (e :: log) = lastStored created log := by
  simp [lastStored, unstored]

variable {sess : Session}

@[simp] theorem lastStored_stored {created : Session} {log : List Event}
    (stored : e.stored = some sess) : lastStored created (e :: log) = sess := by
  simp [lastStored, stored]

/-! ## The invariant -/

/-- What a holder of the lock has read is the last record, and what it is about to write comes
after it. -/
def Stage.Sound (last : Session) (issued : Nat) : Stage → Prop
  | .touchWrite _ sess => sess = last
  | .post _ current => current = last
  | .refreshWrite _ used next => used = last.refreshToken ∧ last.generation < next.generation ∧
      next.generation ≤ issued ∧ next.expiresAt = last.expiresAt
  | _ => True

theorem Stage.sound_of_unlocked {stage : Stage} (unlocked : stage.lockToken = none)
    (last : Session) (issued : Nat) : stage.Sound last issued := by
  cases stage <;> simp_all [Stage.lockToken, Stage.Sound]

theorem Stage.Sound.mono {stage : Stage} {last : Session} {issued more : Nat}
    (sound : stage.Sound last issued) (grown : issued ≤ more) : stage.Sound last more := by
  cases stage with
  | refreshWrite token used next =>
    obtain ⟨same, newer, known, expiry⟩ := sound
    exact ⟨same, newer, Nat.le_trans known grown, expiry⟩
  | _ => exact sound

structure Inv (created : Session) (st : State) : Prop where
  kept : ∀ {e}, st.record = some e → e.val = lastStored created st.log
  gone : .deleted ∈ st.log → st.record = none
  held : ∀ {q stage token}, st.requests.lookup q = some stage → stage.lockToken = some token →
    st.lock.get st.now = some token
  drawn : ∀ {q stage token}, st.requests.lookup q = some stage → stage.lockToken = some token →
    token < st.drawn
  alone : ∀ {q q' stage stage' token}, st.requests.lookup q = some stage →
    st.requests.lookup q' = some stage' → stage.lockToken = some token →
    stage'.lockToken = some token → q = q'
  sound : ∀ {q stage}, st.requests.lookup q = some stage →
    stage.Sound (lastStored created st.log) st.issued
  expiry : ∀ e ∈ st.log, ∀ sess, e.stored = some sess → sess.expiresAt = created.expiresAt
  issued : (lastStored created st.log).generation ≤ st.issued
  used : ∀ {used sess}, .refreshed used sess ∈ st.log →
    generationOf used < (lastStored created st.log).generation ∧
      sess.generation ≤ (lastStored created st.log).generation
  ordered : st.log.Pairwise Event.MayFollow

section
variable {created : Session} {st : State} {q : Nat} {stage : Stage} {token : Nat}

section
variable (inv : Inv created st)
include inv

theorem Inv.expiresAt_last : (lastStored created st.log).expiresAt = created.expiresAt := by
  unfold lastStored
  cases found : st.log.findSome? Event.stored with
  | none => rfl
  | some sess =>
    obtain ⟨e, mem, stored⟩ := List.exists_of_findSome?_eq_some found
    exact inv.expiry e mem sess stored

/-- Two requests that hold the lock are the same. -/
theorem Inv.exclusive {q' : Nat} {stage' : Stage} {token' : Nat}
    (here : st.requests.lookup q = some stage) (locked : stage.lockToken = some token)
    (there : st.requests.lookup q' = some stage') (locked' : stage'.lockToken = some token') :
    q' = q := by
  have same : token' = token :=
    Option.some.inj ((inv.held there locked').symm.trans (inv.held here locked))
  subst same
  exact inv.alone there here locked' locked

/-- A request moves on and keeps the lock it had, or holds none. -/
theorem Inv.goto (sound : stage.Sound (lastStored created st.log) st.issued)
    (keeps : ∀ token, stage.lockToken = some token →
      ∃ old, st.requests.lookup q = some old ∧ old.lockToken = some token) :
    Inv created (st.goto q stage) := by
  -- A request of the new state that holds the lock held it before.
  have before {q' : Nat} {stage' : Stage} {token : Nat}
      (there : (st.goto q stage).requests.lookup q' = some stage')
      (locked : stage'.lockToken = some token) :
      ∃ old, st.requests.lookup q' = some old ∧ old.lockToken = some token := by
    simp only [State.goto, GoMap.lookup_insert_if] at there
    split at there
    next same =>
      cases there
      exact same ▸ keeps token locked
    next => exact ⟨stage', there, locked⟩
  refine { inv with held := fun there locked => ?_, drawn := fun there locked => ?_,
                    alone := fun there there' locked locked' => ?_,
                    sound := fun there => GoMap.forall_insert inv.sound sound there }
  · obtain ⟨old, was, locked⟩ := before there locked
    exact inv.held was locked
  · obtain ⟨old, was, locked⟩ := before there locked
    exact inv.drawn was locked
  · obtain ⟨old, was, locked⟩ := before there locked
    obtain ⟨old', was', locked'⟩ := before there' locked'
    exact inv.alone was was' locked locked'

theorem Inv.finish : Inv created (st.finish q) := by
  have before {q' : Nat} {stage' : Stage}
      (there : (st.finish q).requests.lookup q' = some stage') :
      st.requests.lookup q' = some stage' := by
    simp only [State.finish, GoMap.lookup_erase_if] at there
    split at there
    · cases there
    · exact there
  exact { inv with held := fun there locked => inv.held (before there) locked
                   drawn := fun there locked => inv.drawn (before there) locked
                   alone := fun there there' => inv.alone (before there) (before there')
                   sound := fun there => inv.sound (before there) }

theorem Inv.moreDrawn : Inv created { st with drawn := st.drawn + 1 } :=
  { inv with drawn := fun there locked => Nat.lt_succ_of_lt (inv.drawn there locked) }

/-- The lock is won only when nobody holds it. -/
theorem Inv.lockSession {ttl : Time} {won : Nat → Stage}
    {lost : State → State} (locked : ∀ token, (won token).lockToken = some token)
    (sound : ∀ token, (won token).Sound (lastStored created st.log) st.issued)
    (otherwise : Inv created (lost { st with drawn := st.drawn + 1 })) :
    Inv created (st.lockSession q ttl won lost) := by
  unfold State.lockSession
  split
  next lock offered =>
    obtain ⟨free, rfl⟩ := Cell.setNX_eq offered
    have nobody {q' : Nat} {stage' : Stage} (there : st.requests.lookup q' = some stage') :
        stage'.lockToken = none := by
      cases holds : stage'.lockToken with
      | none => rfl
      | some token =>
        have := inv.held there holds
        simp [free] at this
    -- So the only holder of the new state is the winner.
    have winner {q' : Nat} {stage' : Stage} {token : Nat}
        (there : (AList.insert q (won st.drawn) st.requests).lookup q' = some stage')
        (holds : stage'.lockToken = some token) : q' = q ∧ token = st.drawn := by
      rw [GoMap.lookup_insert_if] at there
      split at there
      next same =>
        cases there
        exact ⟨same, Option.some.inj (holds.symm.trans (locked st.drawn))⟩
      next =>
        rw [nobody there] at holds
        cases holds
    refine { inv with held := fun there holds => ?_, drawn := fun there holds => ?_,
                      alone := fun there there' holds holds' => ?_,
                      sound := fun there => GoMap.forall_insert inv.sound (sound _) there }
    · obtain ⟨-, rfl⟩ := winner there holds
      exact Cell.get_eq_some.mpr ⟨_, rfl, Nat.le_add_right _ _⟩
    · obtain ⟨-, rfl⟩ := winner there holds
      exact Nat.lt_succ_self _
    · rw [(winner there holds).1, (winner there' holds').1]
  next => exact otherwise

/-- The holder gives the lock back. -/
theorem Inv.unlock (here : st.requests.lookup q = some (.unlock token)) :
    Inv created ({ st with lock := st.lock.deleteIfEqual st.now token }.finish q) := by
  have others {q' : Nat} {stage' : Stage} {token' : Nat}
      (there : (st.finish q).requests.lookup q' = some stage')
      (locked : stage'.lockToken = some token') : False := by
    simp only [State.finish, GoMap.lookup_erase_if] at there
    split at there
    next => cases there
    next other => exact other (inv.exclusive here rfl there locked)
  have less := inv.finish (q := q)
  exact { less with held := fun there locked => (others there locked).elim
                    drawn := fun there locked => (others there locked).elim
                    alone := fun there _ locked => (others there locked).elim }

/-- An event that writes nothing. -/
theorem Inv.note (unstored : e.stored = none)
    (gone : e = .deleted → st.record = none) (follows : ∀ e' ∈ st.log, e.MayFollow e') :
    Inv created (st.note e) := by
  have last : lastStored created (st.note e).log = lastStored created st.log :=
    lastStored_unstored unstored
  refine { inv with kept := ?_, gone := ?_, sound := ?_, expiry := ?_, issued := ?_, used := ?_
                    ordered := List.pairwise_cons.mpr ⟨follows, inv.ordered⟩ }
  · rw [last]
    exact inv.kept
  · intro mem
    rcases List.mem_cons.mp mem with same | mem
    · exact gone same.symm
    · exact inv.gone mem
  · rw [last]
    exact inv.sound
  · intro e' mem sess stored
    rcases List.mem_cons.mp mem with rfl | mem
    · rw [unstored] at stored
      cases stored
    · exact inv.expiry e' mem sess stored
  · rw [last]
    exact inv.issued
  · rw [last]
    intro used sess mem
    rcases List.mem_cons.mp mem with same | mem
    · rw [← same] at unstored
      cases unstored
    · exact inv.used mem

theorem Inv.delete : Inv created st.delete := by
  have empty : Inv created { st with record := none } :=
    { inv with kept := fun held => nomatch held
               gone := fun _ => rfl }
  refine empty.note (e := .deleted) rfl (fun _ => rfl) fun e _ => ?_
  cases e <;> simp [Event.MayFollow, Event.stored]

/-- The token of the last record is newer than every one that a stored refresh used. -/
theorem Inv.post : Inv created (st.note (.posted (lastStored created st.log).refreshToken)) := by
  refine inv.note rfl (fun same => by cases same) fun e mem => ?_
  cases e with
  | refreshed used sess =>
    refine ⟨fun same => ?_, fun sess' stored => by cases stored⟩
    have older := (inv.used mem).1
    rw [← Event.posted.inj same] at older
    exact Nat.lt_irrefl _ older
  | deleted => rfl
  | posted _ => trivial
  | touched _ => trivial

theorem Inv.moreIssued : Inv created { st with issued := st.issued + 1 } :=
  { inv with sound := fun there => (inv.sound there).mono (Nat.le_succ _)
             issued := Nat.le_succ_of_le inv.issued }

/-- A holder writes a record that comes after the last one. -/
theorem Inv.write {e : Session → Event}
    (here : st.requests.lookup q = some stage) (locked : stage.lockToken = some token)
    (stored : (e sess).stored = some sess)
    (used : ∀ used, e sess = .refreshed used sess → generationOf used < sess.generation)
    (older : (lastStored created st.log).generation ≤ sess.generation)
    (known : sess.generation ≤ st.issued)
    (expiry : sess.expiresAt = (lastStored created st.log).expiresAt) :
    Inv created (st.write q token sess e) := by
  have keeps : ∀ token', (Stage.unlock token).lockToken = some token' →
      ∃ old, st.requests.lookup q = some old ∧ old.lockToken = some token' := by
    rintro token' same
    exact ⟨stage, here, locked.trans same⟩
  unfold State.write
  split
  next record done =>
    rcases Cell.setXX_eq done with ⟨-, present, rfl⟩ | ⟨refused, -⟩
    · have last : lastStored created (e sess :: st.log) = sess := lastStored_stored stored
      have alive : .deleted ∉ st.log := fun mem => present (inv.gone mem)
      -- Nobody else holds the lock, so nobody else has read the record.
      have others {q' : Nat} {stage' : Stage}
          (there : (AList.insert q (.unlock token) st.requests).lookup q' = some stage') :
          stage'.Sound sess st.issued := by
        rw [GoMap.lookup_insert_if] at there
        split at there
        next => cases there; trivial
        next other =>
          refine Stage.sound_of_unlocked ?_ _ _
          cases holds : stage'.lockToken with
          | none => rfl
          | some token' => exact absurd (inv.exclusive here locked there holds) other
      have moved : Inv created (st.goto q (.unlock token)) := inv.goto trivial keeps
      refine { moved with kept := ?_, gone := ?_, sound := ?_, expiry := ?_, issued := ?_,
                          used := ?_, ordered := ?_ }
      · rintro e' same
        cases same
        exact last.symm
      · intro mem
        rcases List.mem_cons.mp mem with same | mem
        · rw [← same] at stored
          cases stored
        · exact absurd mem alive
      · intro q' stage' there
        simp only [State.goto] at there ⊢
        rw [last]
        exact others there
      · intro e' mem sess' stored'
        rcases List.mem_cons.mp mem with rfl | mem
        · rw [← Option.some.inj (stored.symm.trans stored'), expiry]
          exact inv.expiresAt_last
        · exact inv.expiry e' mem sess' stored'
      · simp only [State.goto]
        rw [last]
        exact known
      · intro used' sess' mem
        simp only [State.goto]
        rw [last]
        rcases List.mem_cons.mp mem with same | mem
        · rw [← same] at stored
          obtain rfl : sess' = sess := Option.some.inj stored
          exact ⟨used used' same.symm, Nat.le_refl _⟩
        · obtain ⟨before, written⟩ := inv.used mem
          exact ⟨Nat.lt_of_lt_of_le before older, Nat.le_trans written older⟩
      · refine List.pairwise_cons.mpr ⟨fun e' mem => ?_, inv.ordered⟩
        cases e' with
        | refreshed used' sess' =>
          refine ⟨fun same => ?_, fun sess'' stored' => ?_⟩
          · rw [same] at stored
            cases stored
          · rw [← Option.some.inj (stored.symm.trans stored')]
            exact Nat.le_trans (inv.used mem).2 older
        | deleted => exact absurd mem alive
        | posted _ => trivial
        | touched _ => trivial
    · cases refused
  next => exact inv.goto trivial keeps

end

variable {idle : Time}

theorem Inv.load (inv : Inv created st) (loaded : loadFresh idle st.record st.now = .ok sess) :
    sess = lastStored created st.log := by
  unfold loadFresh at loaded
  cases found : st.record.get st.now with
  | none => simp [found] at loaded
  | some live =>
    simp only [found] at loaded
    split at loaded <;> cases loaded
    obtain ⟨t, present, -⟩ := Cell.get_eq_some.mp found
    exact inv.kept present

theorem generation_adoptRefreshed (now : Time) (current : Session) (fresh : Nat)
    (expiry : Option Time) (idToken : Option Claims) :
    (adoptRefreshed now current fresh expiry idToken).generation = fresh + 1 ∧
      (adoptRefreshed now current fresh expiry idToken).expiresAt = current.expiresAt := by
  have claims (sess : Session) : (adoptRefreshedClaims sess idToken).refreshToken =
      sess.refreshToken ∧ (adoptRefreshedClaims sess idToken).expiresAt = sess.expiresAt := by
    unfold adoptRefreshedClaims
    split
    next => exact ⟨rfl, rfl⟩
    next =>
      split
      next => exact ⟨rfl, rfl⟩
      next => split <;> exact ⟨rfl, rfl⟩
  unfold adoptRefreshed Session.generation
  obtain ⟨token, kept⟩ := claims { current with refreshToken := some fresh, accessExpiry := expiry }
  dsimp only
  split <;> exact ⟨by rw [token]; rfl, kept⟩

theorem Inv.advance {st' : State} (inv : Inv created st) (here : st.requests.lookup q = some stage)
    (taken : st.advance idle q stage = some st') : Inv created st' := by
  have keeps {next : Stage} (same : next.lockToken = stage.lockToken) :
      ∀ token, next.lockToken = some token →
        ∃ old, st.requests.lookup q = some old ∧ old.lockToken = some token :=
    fun token locked => ⟨stage, here, same.symm.trans locked⟩
  cases stage with
  | touch =>
    cases taken
    exact inv.lockSession (fun _ => rfl) (fun _ => trivial) inv.moreDrawn.finish
  | touchLoad token =>
    simp only [State.advance] at taken
    split at taken
    next =>
      cases taken
      exact inv.goto trivial (keeps rfl)
    next sess loaded =>
      cases taken
      exact inv.goto (inv.load loaded) (keeps rfl)
  | touchWrite token sess =>
    cases taken
    obtain rfl : sess = lastStored created st.log := inv.sound here
    exact inv.write here rfl rfl (fun _ same => by cases same) (Nat.le_refl _) inv.issued rfl
  | refresh deadline =>
    cases taken
    exact inv.lockSession (fun _ => rfl) (fun _ => trivial)
      (inv.moreDrawn.goto trivial fun _ locked => by cases locked)
  | poll deadline =>
    simp only [State.advance] at taken
    split at taken
    next =>
      cases taken
      exact inv.finish
    next =>
      split at taken <;> cases taken
      · exact inv.finish
      · exact inv.goto trivial fun _ locked => by cases locked
  | refreshLoad token =>
    simp only [State.advance] at taken
    split at taken
    next =>
      cases taken
      exact inv.goto trivial (keeps rfl)
    next sess loaded =>
      split at taken <;> cases taken
      · exact inv.goto trivial (keeps rfl)
      · exact inv.goto (inv.load loaded) (keeps rfl)
  | post token current => cases taken
  | refreshWrite token used next =>
    cases taken
    obtain ⟨rfl, newer, known, expiry⟩ := inv.sound here
    refine inv.write here rfl rfl (fun used' same => ?_) (Nat.le_of_lt newer) known expiry
    rw [← (Event.refreshed.inj same).1]
    exact newer
  | refuse token =>
    cases taken
    exact inv.delete.goto trivial (keeps rfl)
  | unlock token =>
    cases taken
    exact inv.unlock here

theorem Inv.answer {current : Session} (inv : Inv created st)
    (here : st.requests.lookup q = some (.post token current)) (a : Answer) :
    Inv created (st.answer q token current a) := by
  obtain rfl : current = lastStored created st.log := inv.sound here
  have keeps {next : Stage} (same : next.lockToken = some token) :
      ∀ token', next.lockToken = some token' →
        ∃ old, st.requests.lookup q = some old ∧ old.lockToken = some token' :=
    fun token' locked => ⟨_, here, same.symm.trans locked⟩
  cases a with
  | success expiry idToken =>
    obtain ⟨generation, kept⟩ := generation_adoptRefreshed st.now (lastStored created st.log)
      st.issued expiry idToken
    refine inv.post.moreIssued.goto ⟨rfl, ?_, ?_, kept⟩ (keeps rfl)
    · rw [generation]
      exact Nat.lt_succ_of_le inv.issued
    · rw [generation]
      exact Nat.le_refl _
  | refused => exact inv.post.goto trivial (keeps rfl)
  | failed => exact inv.post.goto trivial (keeps rfl)

theorem Inv.step {st' : State} {a : Action} (inv : Inv created st) (timely : inTime st a = true)
    (taken : step idle st a = some st') : Inv created st' := by
  cases a with
  | touch q =>
    simp only [SessionStore.step] at taken
    split at taken <;> cases taken
    exact inv.goto trivial fun _ locked => by cases locked
  | authenticate q =>
    simp only [SessionStore.step, State.authenticate] at taken
    split at taken
    next => cases taken
    next =>
      split at taken
      next => cases taken
      next =>
        split at taken <;> cases taken
        exact inv.goto trivial fun _ locked => by cases locked
  | advance q =>
    obtain ⟨stage, here, moved⟩ := Option.bind_eq_some_iff.mp taken
    exact inv.advance here moved
  | answer q a =>
    simp only [SessionStore.step] at taken
    split at taken
    next token current here =>
      cases taken
      exact inv.answer here a
    next => cases taken
  | giveUp q =>
    simp only [SessionStore.step] at taken
    split at taken <;> cases taken <;> exact inv.finish
  | logout =>
    cases taken
    exact inv.delete
  | tick elapsed =>
    cases taken
    refine { inv with held := fun {q stage token} here locked => ?_ }
    simp only [inTime, Bool.or_eq_true, List.all_eq_true] at timely
    rcases timely with nobody | live
    · have := nobody ⟨q, stage⟩ (AList.mem_lookup_iff.mp here)
      simp [locked] at this
    · obtain ⟨token', now⟩ := Option.isSome_iff_exists.mp live
      obtain ⟨t, cell, -⟩ := Cell.get_eq_some.mp now
      obtain ⟨t', cell', -⟩ := Cell.get_eq_some.mp (inv.held here locked)
      rw [cell] at cell'
      cases cell'
      exact now

end

theorem inv_initial (now : Time) (created : Session) : Inv created (initial now created) where
  kept held := by cases held; rfl
  gone mem := by simp [initial] at mem
  held here := by simp [initial] at here
  drawn here := by simp [initial] at here
  alone here := by simp [initial] at here
  sound here := by simp [initial] at here
  expiry e mem := by simp [initial] at mem
  issued := Nat.le_refl _
  used mem := by simp [initial] at mem
  ordered := .nil

/-- In every run in which lock holders finish in time: nothing is written after a delete, and the
record stays absent; no write changes the absolute deadline; and after a refresh was stored, no
write stores an older refresh token and the token it used is not posted again. -/
theorem records_safe (idle now : Time) (created : Session) {st : State}
    (run : Reaches (step idle) (fun st a => inTime st a = true) (initial now created) st) :
    (.deleted ∈ st.log → st.record = none) ∧
    (∀ e, st.record = some e → e.val.expiresAt = created.expiresAt) ∧
    (∀ e ∈ st.log, ∀ sess, e.stored = some sess → sess.expiresAt = created.expiresAt) ∧
    st.log.Pairwise fun later earlier =>
      (earlier = .deleted → later.stored = none) ∧
      ∀ used sess, earlier = .refreshed used sess → later ≠ .posted used ∧
        ∀ sess', later.stored = some sess' → sess.generation ≤ sess'.generation := by
  have inv : Inv created st := run.invariant (inv_initial now created)
    fun _ _ _ inv timely taken => inv.step timely taken
  refine ⟨inv.gone, fun e held => ?_, inv.expiry, inv.ordered.imp fun follows => ⟨?_, ?_⟩⟩
  · rw [inv.kept held]
    exact inv.expiresAt_last
  · rintro rfl
    exact follows
  · rintro used sess rfl
    exact follows

/-- A session whose access token has lapsed. -/
def lapsed : Session :=
  { username := "oidc:a", displayName := "A", groups := [], issuedAt := 0
    expiresAt := some (10 * minute), lastSeenAt := none, refreshToken := some 0
    accessExpiry := some 0 }

/-- A refresh, a touch that finds the lock taken meanwhile, a touch that does not, a logout, and
a touch that comes too late. -/
def refreshThenLogout : List Action :=
  [.authenticate 0, .advance 0, .touch 1, .advance 1, .advance 0, .tick second,
    .answer 0 (.success none (some ⟨"a", some ["ops"], ""⟩)), .advance 0, .advance 0, .touch 2,
    .advance 2, .advance 2, .advance 2, .advance 2, .touch 3, .advance 3, .advance 3, .logout,
    .advance 3, .advance 3]

theorem records_safe_logout :
    ∃ st touched refreshed, Reaches (step minute) (fun st a => inTime st a = true)
        (initial 0 lapsed) st ∧
      st.log = [.deleted, .touched touched, .refreshed (some 0) refreshed, .posted (some 0)] ∧
      refreshed.refreshToken = some 1 ∧ refreshed.groups = ["ops"] ∧ st.record = none ∧
      refreshed.generation ≤ touched.generation := by
  let st := (exec (guarded (step minute) fun st a => inTime st a = true) (initial 0 lapsed)
    refreshThenLogout).get (by decide)
  have run : Reaches (step minute) (fun st a => inTime st a = true) (initial 0 lapsed) st :=
    Reaches.of_exec (Option.some_get _).symm
  let refreshed : Session :=
    { lapsed with refreshToken := some 1, accessExpiry := some (second + 5 * minute)
                  groups := ["ops"] }
  let touched : Session := { refreshed with lastSeenAt := some second }
  have log : st.log = [.deleted, .touched touched, .refreshed (some 0) refreshed,
      .posted (some 0)] := by decide
  obtain ⟨gone, -, -, ordered⟩ := records_safe minute 0 lapsed run
  refine ⟨st, touched, refreshed, run, log, rfl, rfl, gone (by rw [log]; simp), ?_⟩
  rw [log] at ordered
  have rest := (List.pairwise_cons.mp (List.pairwise_cons.mp ordered).2).1
  exact ((rest _ List.mem_cons_self).2 _ _ rfl).2 _ rfl

/-- In every such run at most one request holds the lock, and what it has read, to write it back or
to post its refresh token, is still the record: no update is lost. -/
theorem holder_reads_latest (idle now : Time) (created : Session) {st : State}
    (run : Reaches (step idle) (fun st a => inTime st a = true) (initial now created) st) :
    (∀ q q' stage stage', st.requests.lookup q = some stage → st.requests.lookup q' = some stage' →
      stage.lockToken.isSome → stage'.lockToken.isSome → q' = q) ∧
    ∀ q token sess, st.requests.lookup q = some (.touchWrite token sess) ∨
      st.requests.lookup q = some (.post token sess) → ∀ e, st.record = some e → e.val = sess := by
  have inv : Inv created st := run.invariant (inv_initial now created)
    fun _ _ _ inv timely taken => inv.step timely taken
  constructor
  · intro q q' stage stage' here there locked locked'
    obtain ⟨token, locked⟩ := Option.isSome_iff_exists.mp locked
    obtain ⟨token', locked'⟩ := Option.isSome_iff_exists.mp locked'
    exact inv.exclusive here locked there locked'
  · rintro q token sess (here | here) e held <;>
      exact (inv.kept held).trans (inv.sound here).symm

theorem holder_reads_latest_post : ∃ st : State,
    st.requests.lookup 0 = some (.post 0 lapsed) ∧ ∀ e, st.record = some e → e.val = lapsed := by
  let st := (exec (guarded (step minute) fun st a => inTime st a = true) (initial 0 lapsed)
    (refreshThenLogout.take 6)).get (by decide)
  have here : st.requests.lookup 0 = some (.post 0 lapsed) := by decide
  exact ⟨st, here, (holder_reads_latest minute 0 lapsed
    (.of_exec (Option.some_get _).symm)).2 0 0 lapsed (.inr here)⟩

end Kconmon.Console.SessionStore
