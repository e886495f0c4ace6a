import Kconmon.Console.Credentials

/-!
# A session ends with the credential it was opened on

Every session with a stamp, and every login and change of password under way, holds a
credential that fits and lives (`Inv`). When the authenticator accepts a session,
nothing ended its credential (`unended_of_accepted`); and while nothing does, rehashes
included, the session of a login stays accepted (`accepted_iff_unended`).
-/
namespace Kconmon.Console.Sessions
open Lib Password

/-! ## The invariant -/

/-- The credential behind a session with a given stamp and epoch. -/
def Opening.credential (stamp : Text) (epoch : Nat) : Opening → Option Credential
  | .login account read => some ⟨account, stamp, epoch, read, read⟩
  | .reissue account read changed => some ⟨account, stamp, epoch, read, changed⟩
  | .unstamped => none

theorem Opening.credential_eq {opening : Opening} {stamp : Text} {epoch : Nat} {c : Credential}
    (held : opening.credential stamp epoch = some c) : c.stamp = stamp ∧ c.epoch = epoch := by
  cases opening with
  | login account read => cases held; exact ⟨rfl, rfl⟩
  | reissue account read changed => cases held; exact ⟨rfl, rfl⟩
  | unstamped => cases held

structure Sound (t : Table) (name : Text) (c : Credential) : Prop where
  fits : Fits t c
  lives : Lives t name c

/-- A session from before there were stamps, or with that of a credential. -/
def Bound (t : Table) (sess : Session) : Prop :=
  sess.passwordStamp = [] ∧ sess.opening = .unstamped ∨ ∃ hash epoch c, Written hash ∧
    sess.passwordStamp = sessionStamp hash epoch ∧
    sess.opening.credential (passwordStamp hash) epoch = some c ∧ Sound t sess.username c

variable {t : Table}

theorem Sound.effect {t' : Table} {name : Text} {c : Credential} (sound : Sound t name c)
    (rows : Rows t) (effect : Effect t t') : Sound t' name c :=
  ⟨sound.fits.effect effect, sound.lives.effect rows effect⟩

variable {sess : Session}

theorem Bound.effect {t' : Table} (bound : Bound t sess) (rows : Rows t) (effect : Effect t t') :
    Bound t' sess := by
  rcases bound with empty | ⟨hash, epoch, c, written, stamp, opening, sound⟩
  · exact .inl empty
  · exact .inr ⟨hash, epoch, c, written, stamp, opening, sound.effect rows effect⟩

structure Login.Holds (t : Table) (login : Login) : Prop where
  written : Written login.row.hash
  sound : Sound t login.row.username
    ⟨login.account, passwordStamp login.row.hash, login.row.epoch, login.read, login.read⟩

structure Change.Holds (t : Table) (change : Change) : Prop where
  reads : Reads t change.row.username change.account change.row.epoch change.read
  written : ∀ {hash changed}, change.written = some (hash, changed) → Written hash ∧
    Sound t change.row.username
      ⟨change.account, passwordStamp hash, change.row.epoch, change.read, changed⟩

structure Inv (st : State) : Prop where
  rows : Rows st.table
  sessions : ∀ {sid sess}, st.sessions.lookup sid = some sess → Bound st.table sess
  requests : ∀ {r sess}, st.requests.lookup r = some sess → Bound st.table sess
  logins : ∀ {l login}, st.logins.lookup l = some login → login.Holds st.table
  changes : ∀ {c change}, st.changes.lookup c = some change → change.Holds st.table

section
variable {argon : Argon} {st st' : State}

theorem Inv.effect {table : Table} (inv : Inv st) (effect : Effect st.table table) :
    Inv { st with table } where
  rows := inv.rows.effect effect
  sessions held := (inv.sessions held).effect inv.rows effect
  requests held := (inv.requests held).effect inv.rows effect
  logins held := ⟨(inv.logins held).written, (inv.logins held).sound.effect inv.rows effect⟩
  changes held := by
    obtain ⟨reads, written⟩ := inv.changes held
    exact ⟨reads.effect effect,
      fun done => ⟨(written done).1, (written done).2.effect inv.rows effect⟩⟩

variable {l : Nat}

theorem Inv.insertLogin {login : Login} (inv : Inv st) (sound : login.Holds st.table) :
    Inv { st with logins := AList.insert l login st.logins } :=
  { inv with logins := fun held => GoMap.forall_insert inv.logins sound held }

variable {c : Nat}

theorem Inv.insertChange {change : Change} (inv : Inv st) (sound : change.Holds st.table) :
    Inv { st with changes := AList.insert c change st.changes } :=
  { inv with changes := fun held => GoMap.forall_insert inv.changes sound held }

variable {sid : Nat}

theorem Inv.createSession (inv : Inv st) (bound : Bound st.table sess)
    (done : st.createSession sid sess = some st') : Inv st' := by
  unfold State.createSession at done
  split at done <;> cases done
  exact { inv with sessions := fun held => GoMap.forall_insert inv.sessions bound held }

theorem resolve_ok {users : GoMap Id Row} {id : Id} {row : Row}
    (ok : resolve users sess = .ok (id, row)) : users.lookup id = some row ∧ row.disabled = false ∧
      (sess.passwordStamp ≠ [] → sess.passwordStamp = sessionStamp row.hash row.epoch) := by
  unfold resolve at ok
  cases found : getUserByUsername users sess.username with
  | none => simp [found] at ok
  | some user =>
    simp only [found] at ok
    split at ok
    next => cases ok
    next enabled =>
      split at ok
      next => cases ok
      next fit =>
        cases ok
        refine ⟨(getUserByUsername_some found).1, by simpa using enabled, fun stamped => ?_⟩
        by_contra differs
        exact fit ⟨stamped, differs⟩

variable {plain : Text}

section
variable (inv : Inv st)
include inv

theorem Inv.verifyLogin {username : Text}
    (done : st.verifyLogin argon l username plain = some st') : Inv st' := by
  unfold State.verifyLogin at done
  cases found : getUserByUsername st.table.users username with
  | none => simp [found] at done
  | some user =>
    obtain ⟨account, row⟩ := user
    have held := (getUserByUsername_some found).1
    simp only [found] at done
    split at done
    next => cases done
    next allowed =>
      have enabled : row.disabled = false := by
        by_contra disabled
        exact allowed (.inl (by simpa using disabled))
      cases done
      exact inv.insertLogin
        ⟨inv.rows.written held, ⟨inv.rows.fits held, Rows.lives held enabled⟩⟩

theorem Inv.openSession (done : st.openSession l sid = some st') : Inv st' := by
  obtain ⟨login, held, created⟩ := Option.bind_eq_some_iff.mp done
  obtain ⟨written, sound⟩ := inv.logins held
  have less : Inv { st with logins := st.logins.erase l } :=
    { inv with logins := fun kept => GoMap.forall_erase inv.logins kept }
  exact less.createSession (.inr ⟨_, _, _, written, rfl, rfl, sound⟩) created

theorem Inv.verifyCurrent {r : Nat}
    (done : st.verifyCurrent argon c r plain = some st') : Inv st' := by
  obtain ⟨sess, presented, rest⟩ := Option.bind_eq_some_iff.mp done
  cases resolved : resolve st.table.users sess with
  | error e => simp [resolved] at rest
  | ok user =>
    obtain ⟨account, row⟩ := user
    simp only [resolved] at rest
    split at rest <;> cases rest
    obtain ⟨held, enabled, -⟩ := resolve_ok resolved
    exact inv.insertChange ⟨inv.rows.reads held enabled, fun done => by cases done⟩

theorem Inv.changePassword {salt : Bytes}
    (done : st.changePassword argon c plain salt = some st') : Inv st' := by
  obtain ⟨change, held, rest⟩ := Option.bind_eq_some_iff.mp done
  split at rest
  · cases rest
  · obtain ⟨table, updated, rfl⟩ := Option.map_eq_some_iff.mp rest
    have effect := effect_updateUserPassword updated
    obtain ⟨reads, -⟩ := inv.changes held
    have salted := ne_nil_of_length (updateUserPassword_some updated).1
    refine (inv.effect effect).insertChange ⟨reads.effect effect, fun {hash changed} eq => ?_⟩
    cases eq
    rw [passwordStamp_hashWithSalt argon plain salted]
    exact ⟨written_hashWithSalt argon plain salted,
      ⟨reads.fits_changed inv.rows updated, reads.lives_changed updated⟩⟩

theorem Inv.reissue (done : st.reissue c sid = some st') : Inv st' := by
  obtain ⟨change, held, rest⟩ := Option.bind_eq_some_iff.mp done
  obtain ⟨⟨hash, changed⟩, committed, created⟩ := Option.bind_eq_some_iff.mp rest
  obtain ⟨written, sound⟩ := (inv.changes held).written committed
  have less : Inv { st with changes := st.changes.erase c } :=
    { inv with changes := fun kept => GoMap.forall_erase inv.changes kept }
  exact less.createSession (.inr ⟨_, _, _, written, rfl, rfl, sound⟩) created

theorem Inv.step {a : Action} (taken : step argon st a = some st') : Inv st' := by
  cases a with
  | createUser username displayName plain salt =>
    obtain ⟨table, done, rfl⟩ := Option.map_eq_some_iff.mp taken
    exact inv.effect (effect_createUser done)
  | resetPassword id plain salt =>
    obtain ⟨table, done, rfl⟩ := Option.map_eq_some_iff.mp taken
    exact inv.effect (effect_updateUserPassword done)
  | setDisabled id disabled =>
    obtain ⟨table, done, rfl⟩ := Option.map_eq_some_iff.mp taken
    exact inv.effect (effect_setUserDisabled inv.rows done)
  | deleteUser id =>
    obtain ⟨table, done, rfl⟩ := Option.map_eq_some_iff.mp taken
    exact inv.effect (effect_deleteUser done)
  | verify l username plain => exact inv.verifyLogin taken
  | upgrade l =>
    obtain ⟨login, held, rfl⟩ := Option.map_eq_some_iff.mp taken
    exact inv.effect (effect_upgradePasswordHash (inv.logins held).written)
  | openSession l sid => exact inv.openSession taken
  | present r sid =>
    obtain ⟨sess, held, rfl⟩ := Option.map_eq_some_iff.mp taken
    have bound := inv.sessions held
    exact { inv with requests := fun kept => GoMap.forall_insert inv.requests bound kept }
  | verifyCurrent c r plain => exact inv.verifyCurrent taken
  | changePassword c plain salt => exact inv.changePassword taken
  | reissue c sid => exact inv.reissue taken
  | adopt sid username displayName groups => exact inv.createSession (.inl ⟨rfl, rfl⟩) taken
  | deleteSession sid =>
    cases taken
    exact { inv with sessions := fun kept => GoMap.forall_erase inv.sessions kept }

end

end

/-! ## What an accepted session says -/

theorem Bound.accepted {id : Id} {row : Row} (bound : Bound t sess) (rows : Rows t)
    (stamped : sess.passwordStamp ≠ []) (ok : resolve t.users sess = .ok (id, row)) :
    ∃ stamp epoch c, sess.opening.credential stamp epoch = some c ∧ id = c.account ∧
      c.Undisturbed t.ended := by
  obtain ⟨held, -, same⟩ := resolve_ok ok
  rcases bound with empty | ⟨hash, epoch, c, written, stamp, opening, sound⟩
  · exact absurd empty.1 stamped
  · obtain ⟨salts, epochs⟩ := sessionStamp_inj (rows.written held) written
      ((same stamped).symm.trans stamp)
    obtain ⟨known, count⟩ := Opening.credential_eq opening
    obtain ⟨account, -, rest⟩ := sound.fits.current held (salts.trans known.symm)
    exact ⟨_, _, c, opening, account, rest (epochs.trans count.symm)⟩

/-- While nothing ended its credential, a session with a stamp is accepted. -/
theorem Bound.alive (bound : Bound t sess) (rows : Rows t) (opened : sess.opening ≠ .unstamped)
    (undisturbed : ∀ stamp epoch c, sess.opening.credential stamp epoch = some c →
      c.Undisturbed t.ended) : ∃ user, resolve t.users sess = .ok user := by
  rcases bound with empty | ⟨hash, epoch, c, written, stamp, opening, sound⟩
  · exact absurd empty.2 opened
  · obtain ⟨row, held, name, enabled, salts, count⟩ := sound.lives.alive (undisturbed _ _ c opening)
    obtain ⟨known, epochs⟩ := Opening.credential_eq opening
    have same : sess.passwordStamp = sessionStamp row.hash row.epoch := by
      rw [stamp, sessionStamp_eq, sessionStamp_eq, salts, known, count, epochs]
    have found := rows.getUserByUsername held
    rw [name] at found
    exact ⟨(c.account, row), by simp [resolve, found, enabled, same]⟩

theorem Bound.stamped (bound : Bound t sess) (opened : sess.opening ≠ .unstamped) :
    sess.passwordStamp ≠ [] := by
  rcases bound with empty | ⟨hash, epoch, c, written, stamp, opening, sound⟩
  · exact absurd empty.2 opened
  · rw [stamp]
    exact sessionStamp_ne_nil hash epoch

/-- The users as some release left them. -/
structure Database where
  table : Table
  rows : Rows table

def Database.initial (db : Database) : State := { table := db.table }

theorem inv_initial (db : Database) : Inv db.initial where
  rows := db.rows
  sessions held := by simp [Database.initial] at held
  requests held := by simp [Database.initial] at held
  logins held := by simp [Database.initial] at held
  changes held := by simp [Database.initial] at held

theorem authenticate_ok {users : GoMap Id Row} {subject : Subject} :
    authenticate users sess = .ok subject ↔ ∃ user, resolve users sess = .ok user ∧
      subject = ⟨user.1, user.2.displayName, sess.groups⟩ := by
  unfold authenticate
  cases resolve users sess with
  | error e => simp [Except.map]
  | ok user => simp [Except.map, eq_comm]

theorem inv_of_run {argon : Argon} {db : Database} {st : State}
    (run : Reaches (step argon) (fun _ _ => True) db.initial st) : Inv st :=
  run.invariant (inv_initial db) fun _ _ _ inv _ taken => inv.step taken

/-- A session with a stamp is accepted only for the account it was opened on, and only if no
password change, disable or delete of that account was committed since its login read the row.
One issued by a change of the own password counts password changes from that one on. -/
theorem unended_of_accepted (argon : Argon) (db : Database) {st : State} {r : Nat} {sess : Session}
    {subject : Subject} (run : Reaches (step argon) (fun _ _ => True) db.initial st)
    (presented : st.requests.lookup r = some sess) (stamped : sess.passwordStamp ≠ [])
    (accepted : authenticate st.table.users sess = .ok subject) :
    (∀ account read, sess.opening = .login account read → subject.id = account ∧
      ∀ e ∈ st.table.ended, e.account = account → e.time < read) ∧
    (∀ account read changed, sess.opening = .reissue account read changed →
      subject.id = account ∧ ∀ e ∈ st.table.ended, e.account = account →
        e.time < if e.kind = .passwordChange then changed else read) ∧
    sess.opening ≠ .unstamped := by
  have inv := inv_of_run run
  obtain ⟨⟨id, row⟩, ok, rfl⟩ := authenticate_ok.mp accepted
  obtain ⟨stamp, epoch, c, opening, account, rest⟩ :=
    (inv.requests presented).accepted inv.rows stamped ok
  refine ⟨fun a read eq => ?_, fun a read changed eq => ?_, fun eq => ?_⟩
  · simp only [eq, Opening.credential, Option.some.injEq] at opening
    subst opening
    refine ⟨account, fun e mem whose => ?_⟩
    simpa using rest e mem whose
  · simp only [eq, Opening.credential, Option.some.injEq] at opening
    subst opening
    exact ⟨account, rest⟩
  · simp [eq, Opening.credential] at opening

/-- The session of a login is accepted exactly while no password change, disable or delete of its
account was committed since the row was read: rehashes and enables leave it alone. -/
theorem accepted_iff_unended {argon : Argon} {db : Database} {st : State} {r : Nat} {account : Id}
    {read : Nat} (run : Reaches (step argon) (fun _ _ => True) db.initial st)
    (presented : st.requests.lookup r = some sess) (opened : sess.opening = .login account read) :
    (∃ subject, authenticate st.table.users sess = .ok subject) ↔
      ∀ e ∈ st.table.ended, e.account = account → e.time < read := by
  have inv := inv_of_run run
  have bound := inv.requests presented
  have stamping : sess.opening ≠ .unstamped := by rw [opened]; simp
  constructor
  · rintro ⟨subject, accepted⟩
    obtain ⟨user, ok, -⟩ := authenticate_ok.mp accepted
    obtain ⟨stamp, epoch, c, opening, -, rest⟩ :=
      bound.accepted inv.rows (bound.stamped stamping) ok
    simp only [opened, Opening.credential, Option.some.injEq] at opening
    subst opening
    intro e mem whose
    simpa using rest e mem whose
  · intro unended
    obtain ⟨user, ok⟩ := bound.alive inv.rows stamping fun stamp epoch c opening e mem whose => by
      simp only [opened, Opening.credential, Option.some.injEq] at opening
      subst opening
      simpa using unended e mem whose
    exact ⟨_, authenticate_ok.mpr ⟨user, ok, rfl⟩⟩

/-! ## Runs -/

def saltOf (n : UInt8) : Bytes := List.replicate argonSaltBytes n

/-- One user, with a hash at the parameters of an earlier release. -/
def oldRow : Row :=
  { username := ['r'], displayName := ['R']
    hash := phc (64 * 1024) 3 2 (saltOf 1) (List.replicate 32 4) }

def oldTable : Table := { users := AList.insert 0 oldRow ∅, next := 1, salts := [saltOf 1] }

theorem lookup_oldTable {id : Id} {row : Row} (held : oldTable.users.lookup id = some row) :
    id = 0 ∧ row = oldRow := by
  simp only [oldTable, GoMap.lookup_insert_if, AList.lookup_empty] at held
  split at held
  next eq => exact ⟨eq, (Option.some.inj held).symm⟩
  next => cases held

def oldDatabase : Database where
  table := oldTable
  rows :=
    { written := fun {_ row} held => by
        obtain ⟨-, rfl⟩ := lookup_oldTable held
        exact ⟨_, _, _, saltOf 1, _, by decide, rfl⟩
      drawn := fun {_ row} held => by
        obtain ⟨-, rfl⟩ := lookup_oldTable held
        exact ⟨saltOf 1, by simp [oldTable], passwordStamp_phc (by decide) _ _ _ _⟩
      distinct := fun {_ _ _ _} held held' _ => by
        rw [(lookup_oldTable held).1, (lookup_oldTable held').1]
      named := fun {_ _ _ _} held held' _ => by
        rw [(lookup_oldTable held).1, (lookup_oldTable held').1]
      below := fun {_ _} held => by
        obtain ⟨rfl, -⟩ := lookup_oldTable held
        decide
      past := by simp [oldTable] }

/-- A login that rehashes, a reset of the password, and a login with the new one; a second account
is disabled meanwhile. -/
def resetRun : List Action :=
  [.verify 0 ['r'] ['p', 'a', 's', 's'], .upgrade 0, .openSession 0 0, .present 0 0,
    .createUser ['s'] ['S'] ['x'] (saltOf 2), .resetPassword 0 ['n', 'e', 'w'] (saltOf 3),
    .setDisabled 1 true, .verify 1 ['r'] ['n', 'e', 'w'], .openSession 1 1, .present 1 1]

theorem unended_of_accepted_reset :
    ∃ st old new, Reaches (step lengthKey) (fun _ _ => True) oldDatabase.initial st ∧
      st.requests.lookup 0 = some old ∧ st.requests.lookup 1 = some new ∧
      new.opening = .login 0 2 ∧ st.table.ended = [⟨1, .disable, 1⟩, ⟨0, .passwordChange, 0⟩] ∧
      authenticate st.table.users old = .error .noCredentials ∧
      authenticate st.table.users new = .ok ⟨0, ['R'], []⟩ ∧
      ∀ e ∈ st.table.ended, e.account = 0 → e.time < 2 := by
  let st := (exec (guarded (step lengthKey) fun _ _ => True) oldDatabase.initial resetRun).get
    (by decide)
  have run : Reaches (step lengthKey) (fun _ _ => True) oldDatabase.initial st :=
    Reaches.of_exec (Option.some_get _).symm
  let old := (st.requests.lookup 0).get (by decide)
  let new := (st.requests.lookup 1).get (by decide)
  have presented : st.requests.lookup 1 = some new := (Option.some_get _).symm
  have opening : new.opening = .login 0 2 := by decide
  have accepted : authenticate st.table.users new = .ok ⟨0, ['R'], []⟩ := by decide
  exact ⟨st, old, new, run, (Option.some_get _).symm, presented, opening, by decide,
    by decide, accepted,
    ((unended_of_accepted lengthKey oldDatabase run presented (by decide) accepted).1
      0 2 opening).2⟩

theorem accepted_iff_unended_reset : ∃ (st : State) (sess : Session),
    st.requests.lookup 0 = some sess ∧
      ((∃ subject, authenticate st.table.users sess = .ok subject) ↔
        ∀ e ∈ st.table.ended, e.account = 0 → e.time < 0) := by
  let st := (exec (guarded (step lengthKey) fun _ _ => True) oldDatabase.initial resetRun).get
    (by decide)
  have presented : st.requests.lookup 0 = some ((st.requests.lookup 0).get (by decide)) :=
    (Option.some_get _).symm
  exact ⟨st, _, presented,
    accepted_iff_unended (.of_exec (Option.some_get _).symm) presented (by decide)⟩

/-- A change of the own password writes over whatever hash the row holds by then. -/
def lostReset : List Action :=
  [.verify 0 ['r'] ['p', 'a', 's', 's'], .openSession 0 0, .present 0 0,
    .verifyCurrent 0 0 ['p', 'a', 's', 's'], .resetPassword 0 ['n', 'e', 'w'] (saltOf 2),
    .changePassword 0 ['b', 'a', 'c', 'k', 's'] (saltOf 3), .reissue 0 1, .present 1 1]

-- The reset falls between the read and the write of the change, and is lost.
example : (exec (step lengthKey) oldDatabase.initial lostReset).map (fun st =>
    (st.requests.lookup 1).map fun sess =>
      (sess.opening, authenticate st.table.users sess, st.table.ended)) =
    some (some (.reissue 0 0 2, .ok ⟨0, ['R'], []⟩,
      [⟨0, .passwordChange, 1⟩, ⟨0, .passwordChange, 0⟩])) := by decide

end Kconmon.Console.Sessions
