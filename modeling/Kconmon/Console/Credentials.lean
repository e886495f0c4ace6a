import Kconmon.Console.Sessions

/-!
# What a stamp says about the row it was taken from

A write to the users table does one of four things (`Effect`): it leaves a row's stamp
and epoch alone, gives a row a salt never seen before, raises an epoch, or deletes a
row. A stamp that was taken from a row fits it only while nothing ended the credential
(`Fits`), and does fit while nothing did (`Lives`).
-/
namespace Kconmon.Console.Sessions
open Lib Password

/-! ## What a write does -/

/-- What holds of the rows in every state. -/
structure Rows (t : Table) : Prop where
  written : ∀ {id row}, t.users.lookup id = some row → Written row.hash
  drawn : ∀ {id row}, t.users.lookup id = some row →
    ∃ salt ∈ t.salts, passwordStamp row.hash = Base64.encode salt
  distinct : ∀ {id id' row row'}, t.users.lookup id = some row → t.users.lookup id' = some row' →
    passwordStamp row.hash = passwordStamp row'.hash → id = id'
  named : ∀ {id id' row row'}, t.users.lookup id = some row → t.users.lookup id' = some row' →
    row.username = row'.username → id = id'
  below : ∀ {id row}, t.users.lookup id = some row → id < t.next
  past : ∀ e ∈ t.ended, e.time < t.clock

/-- One write, at a row or at none. -/
inductive Effect (t : Table) : Table → Prop where
  | none : Effect t t
  | keep {id : Id} {row row' : Row} (held : t.users.lookup id = some row)
      (written : Written row'.hash) (stamp : passwordStamp row'.hash = passwordStamp row.hash)
      (epoch : row'.epoch = row.epoch) (name : row'.username = row.username)
      (enabled : row.disabled = false → row'.disabled = false) : Effect t (t.set id row')
  | create {row : Row} {salt : Bytes} (written : Written row.hash)
      (stamp : passwordStamp row.hash = Base64.encode salt) (unseen : salt ∉ t.salts)
      (free : ∀ {id row'}, t.users.lookup id = some row' → row'.username ≠ row.username) :
      Effect t { t.set t.next row with next := t.next + 1, salts := salt :: t.salts }
  | change {id : Id} {row row' : Row} {salt : Bytes} (held : t.users.lookup id = some row)
      (written : Written row'.hash) (stamp : passwordStamp row'.hash = Base64.encode salt)
      (unseen : salt ∉ t.salts) (epoch : row'.epoch = row.epoch)
      (name : row'.username = row.username) (disabled : row'.disabled = row.disabled) :
      Effect t { (t.set id row').log id .passwordChange with salts := salt :: t.salts }
  | disable {id : Id} {row row' : Row} (held : t.users.lookup id = some row)
      (hash : row'.hash = row.hash) (epoch : row'.epoch = row.epoch + 1)
      (name : row'.username = row.username) : Effect t ((t.set id row').log id .disable)
  | delete {id : Id} {row : Row} (held : t.users.lookup id = some row) :
      Effect t { t.log id .delete with users := t.users.erase id }

@[simp] theorem lookup_set (t : Table) (id id' : Id) (row : Row) :
    (t.set id row).users.lookup id' = if id' = id then some row else t.users.lookup id' :=
  GoMap.lookup_insert_if t.users id id' row

variable {id : Id} {row : Row} {username : Text}

theorem getUserByUsername_some {users : GoMap Id Row}
    (found : getUserByUsername users username = some (id, row)) :
    users.lookup id = some row ∧ row.username = username := by
  obtain ⟨e, entry, eq⟩ := Option.map_eq_some_iff.mp found
  cases eq
  exact ⟨AList.mem_lookup_iff.mpr (List.mem_of_find?_eq_some entry),
    by simpa using List.find?_some entry⟩

theorem getUserByUsername_none {users : GoMap Id Row}
    (absent : getUserByUsername users username = none) (held : users.lookup id = some row) :
    row.username ≠ username := by
  have none_named := List.find?_eq_none.mp (Option.map_eq_none_iff.mp absent)
  simpa using none_named ⟨id, row⟩ (AList.mem_lookup_iff.mp held)

variable {salt : Bytes}

theorem fresh_iff {t : Table} :
    t.fresh salt = true ↔ salt.length = argonSaltBytes ∧ salt ∉ t.salts := by
  simp [Table.fresh]

theorem ne_nil_of_length (length : salt.length = argonSaltBytes) : salt ≠ [] := by
  rintro rfl
  simp [argonSaltBytes] at length

section
variable {argon : Argon} {t t' : Table}

theorem effect_createUser {displayName plain : Text}
    (done : t.createUser username displayName salt (hashWithSalt argon plain salt) = some t') :
    Effect t t' := by
  unfold Table.createUser at done
  split at done
  next can =>
    obtain ⟨length, unseen⟩ := fresh_iff.mp can.1
    have salted := ne_nil_of_length length
    cases done
    exact .create (written_hashWithSalt argon plain salted)
      (passwordStamp_hashWithSalt argon plain salted) unseen (getUserByUsername_none can.2)
  next => cases done

theorem updateUserPassword_some {hash : Text} (done : t.updateUserPassword id salt hash = some t') :
    salt.length = argonSaltBytes ∧ salt ∉ t.salts ∧ ∃ row, t.users.lookup id = some row ∧
      t' = { (t.set id { row with hash }).log id .passwordChange with salts := salt :: t.salts } :=
        by
  unfold Table.updateUserPassword at done
  split at done
  next can =>
    obtain ⟨length, unseen⟩ := fresh_iff.mp can
    obtain ⟨row, held, rfl⟩ := Option.map_eq_some_iff.mp done
    exact ⟨length, unseen, row, held, rfl⟩
  next => cases done

theorem effect_updateUserPassword {plain : Text}
    (done : t.updateUserPassword id salt (hashWithSalt argon plain salt) = some t') :
    Effect t t' := by
  obtain ⟨length, unseen, row, held, rfl⟩ := updateUserPassword_some done
  have salted := ne_nil_of_length length
  exact .change held (written_hashWithSalt argon plain salted)
    (passwordStamp_hashWithSalt argon plain salted) unseen rfl rfl rfl

theorem effect_setUserDisabled {disabled : Bool} (rows : Rows t)
    (done : t.setUserDisabled id disabled = some t') : Effect t t' := by
  obtain ⟨row, held, rfl⟩ := Option.map_eq_some_iff.mp done
  have written := rows.written held
  cases disabled with
  | true => exact .disable held rfl rfl rfl
  | false => exact .keep held written rfl rfl rfl fun _ => rfl

theorem effect_deleteUser (done : t.deleteUser id = some t') : Effect t t' := by
  obtain ⟨row, held, rfl⟩ := Option.map_eq_some_iff.mp done
  exact .delete held

/-- A rehash writes only over the hash it was computed from, with the same salt. -/
theorem effect_upgradePasswordHash {login : Login} (written : Written login.row.hash) :
    Effect t (t.upgradePasswordHash argon login) := by
  unfold Table.upgradePasswordHash
  split
  · cases done : rehashPassword argon login.row.hash login.plain with
    | error e => exact .none
    | ok upgraded =>
      obtain ⟨rewritten, stamp⟩ := written.rehash done
      simp only [Table.rehashUserPassword]
      cases held : t.users.lookup login.account with
      | none => exact .none
      | some row =>
        by_cases same : row.hash = login.row.hash
        · simp only [same, if_true]
          exact .keep held rewritten (by rw [stamp, same]) rfl rfl fun enabled => enabled
        · simp only [same, if_false]
          exact .none
  · exact .none

end

/-! ## What a stamp says about the row -/

/-- A row as a login or a change of password saw it: its stamp and epoch, when it was read, and
since when a password change would count. -/
structure Credential where
  account : Id
  stamp : Text
  epoch : Nat
  read : Nat
  changed : Nat

/-- No disable or delete since the row was read, no password change since it counts. -/
def Credential.Undisturbed (c : Credential) (ended : List Ended) : Prop :=
  ∀ e ∈ ended, e.account = c.account →
    e.time < if e.kind = .passwordChange then c.changed else c.read

/-- A row with the credential's stamp is the account's, and if the epoch is the same too, nothing
ended it. -/
structure Fits (t : Table) (c : Credential) : Prop where
  drawn : ∃ salt ∈ t.salts, c.stamp = Base64.encode salt
  current : ∀ {id row}, t.users.lookup id = some row → passwordStamp row.hash = c.stamp →
    id = c.account ∧ c.epoch ≤ row.epoch ∧ (row.epoch = c.epoch → c.Undisturbed t.ended)

variable {c : Credential} {ended : List Ended}

theorem Credential.Undisturbed.log {e : Ended} (held : c.Undisturbed ended)
    (other : e.account ≠ c.account) : c.Undisturbed (e :: ended) := by
  intro e' mem account
  rcases List.mem_cons.mp mem with rfl | mem
  · exact absurd account other
  · exact held e' mem account

theorem encode_ne_of_unseen {t : Table} {stamp : Text}
    (drawn : ∃ salt ∈ t.salts, stamp = Base64.encode salt) (unseen : salt ∉ t.salts) :
    Base64.encode salt ≠ stamp := by
  obtain ⟨old, seen, rfl⟩ := drawn
  intro same
  exact unseen (Base64.encode_injective same ▸ seen)

theorem Fits.effect {t t' : Table} (fits : Fits t c) (effect : Effect t t') : Fits t' c := by
  obtain ⟨drawn, current⟩ := fits
  have grown {salt : Bytes} : ∃ s ∈ salt :: t.salts, c.stamp = Base64.encode s := by
    obtain ⟨s, seen, eq⟩ := drawn
    exact ⟨s, List.mem_cons_of_mem _ seen, eq⟩
  cases effect with
  | none => exact ⟨drawn, current⟩
  | @keep id row row' held written stamp epoch name enabled =>
    refine ⟨drawn, fun {id' found} lookup same => ?_⟩
    rw [lookup_set] at lookup
    split at lookup
    next eq =>
      cases lookup
      obtain ⟨account, least, rest⟩ := current held (stamp.symm.trans same)
      exact ⟨eq.trans account, by omega, fun e => rest (by omega)⟩
    next => exact current lookup same
  | @create row salt written stamp unseen free =>
    refine ⟨grown, fun {id' found} lookup same => ?_⟩
    simp only [lookup_set] at lookup
    split at lookup
    next =>
      cases lookup
      exact absurd (stamp.symm.trans same) (encode_ne_of_unseen drawn unseen)
    next => exact current lookup same
  | @change id row row' salt held written stamp unseen epoch name disabled =>
    refine ⟨grown, fun {id' found} lookup same => ?_⟩
    simp only [Table.log, lookup_set] at lookup
    split at lookup
    next =>
      cases lookup
      exact absurd (stamp.symm.trans same) (encode_ne_of_unseen drawn unseen)
    next ne =>
      obtain ⟨account, least, rest⟩ := current lookup same
      exact ⟨account, least, fun e => (rest e).log fun eq => ne (account.trans eq.symm)⟩
  | @disable id row row' held hash epoch name =>
    refine ⟨drawn, fun {id' found} lookup same => ?_⟩
    simp only [Table.log, lookup_set] at lookup
    split at lookup
    next eq =>
      cases lookup
      -- The epoch passes the one the credential holds, whatever that was.
      obtain ⟨account, least, -⟩ := current held (by rwa [hash] at same)
      exact ⟨eq.trans account, by omega, fun e => by omega⟩
    next ne =>
      obtain ⟨account, least, rest⟩ := current lookup same
      exact ⟨account, least, fun e => (rest e).log fun eq => ne (account.trans eq.symm)⟩
  | @delete id row held =>
    refine ⟨drawn, fun {id' found} lookup same => ?_⟩
    simp only [GoMap.lookup_erase_if] at lookup
    split at lookup
    next => cases lookup
    next ne =>
      obtain ⟨account, least, rest⟩ := current lookup same
      exact ⟨account, least, fun e => (rest e).log fun eq => ne (account.trans eq.symm)⟩

variable {clock : Nat}

theorem Credential.Undisturbed.of_log {kind : Ending}
    (held : c.Undisturbed (⟨id, kind, clock⟩ :: ended)) (read : c.read ≤ clock)
    (changed : c.changed ≤ clock) : c.account ≠ id ∧ c.Undisturbed ended := by
  refine ⟨fun eq => ?_, fun e mem => held e (List.mem_cons_of_mem _ mem)⟩
  have late : clock < if kind = .passwordChange then c.changed else c.read :=
    held _ List.mem_cons_self eq.symm
  split at late <;> omega

/-- While nothing ended it, the credential is that of an enabled account of the same name. -/
structure Lives (t : Table) (name : Text) (c : Credential) : Prop where
  read : c.read ≤ t.clock
  changed : c.changed ≤ t.clock
  alive : c.Undisturbed t.ended → ∃ row, t.users.lookup c.account = some row ∧
    row.username = name ∧ row.disabled = false ∧ passwordStamp row.hash = c.stamp ∧
    row.epoch = c.epoch

variable {name : Text}

theorem Lives.effect {t t' : Table} (lives : Lives t name c) (rows : Rows t)
    (effect : Effect t t') : Lives t' name c := by
  obtain ⟨read, changed, alive⟩ := lives
  cases effect with
  | none => exact ⟨read, changed, alive⟩
  | @keep id row row' held written stamp epoch named enabled =>
    refine ⟨read, changed, fun undisturbed => ?_⟩
    obtain ⟨found, lookup, rest⟩ := alive undisturbed
    by_cases eq : c.account = id
    · obtain rfl : row = found := by
        rw [eq, held] at lookup
        exact Option.some.inj lookup
      obtain ⟨username, on, same, count⟩ := rest
      exact ⟨row', by simp [eq], named.trans username, enabled on, stamp.trans same,
        epoch.trans count⟩
    · exact ⟨found, by simpa [eq] using lookup, rest⟩
  | @create row salt written stamp unseen free =>
    refine ⟨read, changed, fun undisturbed => ?_⟩
    obtain ⟨found, lookup, rest⟩ := alive undisturbed
    have old := Nat.ne_of_lt (rows.below lookup)
    exact ⟨found, by simpa [old] using lookup, rest⟩
  | @change id row row' salt held written stamp unseen epoch named disabled =>
    refine ⟨Nat.le_succ_of_le read, Nat.le_succ_of_le changed, fun undisturbed => ?_⟩
    obtain ⟨other, before⟩ := undisturbed.of_log read changed
    obtain ⟨found, lookup, rest⟩ := alive before
    exact ⟨found, by simpa [Table.log, other] using lookup, rest⟩
  | @disable id row row' held hash epoch named =>
    refine ⟨Nat.le_succ_of_le read, Nat.le_succ_of_le changed, fun undisturbed => ?_⟩
    obtain ⟨other, before⟩ := undisturbed.of_log read changed
    obtain ⟨found, lookup, rest⟩ := alive before
    exact ⟨found, by simpa [Table.log, other] using lookup, rest⟩
  | @delete id row held =>
    refine ⟨Nat.le_succ_of_le read, Nat.le_succ_of_le changed, fun undisturbed => ?_⟩
    obtain ⟨other, before⟩ := undisturbed.of_log read changed
    obtain ⟨found, lookup, rest⟩ := alive before
    exact ⟨found, by simpa [other] using lookup, rest⟩

/-! ## The rows themselves -/

/-- Every row is a credential of its own account, read now. -/
theorem Rows.fits {t : Table} (rows : Rows t) (held : t.users.lookup id = some row) :
    Fits t ⟨id, passwordStamp row.hash, row.epoch, t.clock, t.clock⟩ := by
  refine ⟨rows.drawn held, fun {id' found} lookup same => ?_⟩
  obtain rfl := rows.distinct lookup held same
  obtain rfl : found = row := by
    rw [held] at lookup
    exact (Option.some.inj lookup).symm
  refine ⟨rfl, le_rfl, fun _ e mem _ => ?_⟩
  have := rows.past e mem
  split <;> exact this

theorem Rows.getUserByUsername {t : Table} (rows : Rows t) (held : t.users.lookup id = some row) :
    getUserByUsername t.users row.username = some (id, row) := by
  cases found : Sessions.getUserByUsername t.users row.username with
  | none => exact absurd rfl (getUserByUsername_none found held)
  | some user =>
    obtain ⟨id', row'⟩ := user
    obtain ⟨held', name⟩ := getUserByUsername_some found
    obtain rfl := rows.named held' held name
    cases held'.symm.trans held
    rfl

theorem Rows.lives {t : Table} (held : t.users.lookup id = some row)
    (enabled : row.disabled = false) :
    Lives t row.username ⟨id, passwordStamp row.hash, row.epoch, t.clock, t.clock⟩ :=
  ⟨le_rfl, le_rfl, fun _ => ⟨row, held, rfl, enabled, rfl, rfl⟩⟩

/-- A relation that only rows under one id are in, kept by a write at an id. -/
theorem same_id_of_write {t t' : Table} {R : Row → Row → Prop} (symm : ∀ {a b}, R a b → R b a)
    (others : ∀ id', id' ≠ id → t'.users.lookup id' = t.users.lookup id')
    (old : ∀ {i j a b}, t.users.lookup i = some a → t.users.lookup j = some b → R a b → i = j)
    (here : ∀ a, t'.users.lookup id = some a → ∀ j b, t.users.lookup j = some b → R b a → j = id)
    {i j : Id} {a b : Row} (first : t'.users.lookup i = some a)
    (second : t'.users.lookup j = some b) (related : R a b) : i = j := by
  by_cases left : i = id <;> by_cases right : j = id
  · rw [left, right]
  · subst left
    exact (here a first j b (others j right ▸ second) (symm related)).symm
  · subst right
    exact here b second i a (others i left ▸ first) related
  · exact old (others i left ▸ first) (others j right ▸ second) related

/-- The rows after a write at one id, from what the new row there is like. -/
theorem Rows.write {t t' : Table} (id : Id) (rows : Rows t)
    (others : ∀ id', id' ≠ id → t'.users.lookup id' = t.users.lookup id')
    (salts : ∀ salt ∈ t.salts, salt ∈ t'.salts) (next : t.next ≤ t'.next)
    (past : ∀ e ∈ t'.ended, e.time < t'.clock)
    (here : ∀ row, t'.users.lookup id = some row → Written row.hash ∧ id < t'.next ∧
      (∃ salt ∈ t'.salts, passwordStamp row.hash = Base64.encode salt) ∧
      ∀ id' row', t.users.lookup id' = some row' →
        passwordStamp row'.hash = passwordStamp row.hash ∨ row'.username = row.username →
          id' = id) :
    Rows t' := by
  refine ⟨fun {i row} held => ?_, fun {i row} held => ?_, fun {i j row row'} held held' same => ?_,
    fun {i j row row'} held held' same => ?_, fun {i row} held => ?_, past⟩
  · by_cases eq : i = id
    · subst eq
      exact (here row held).1
    · exact rows.written (others i eq ▸ held)
  · by_cases eq : i = id
    · subst eq
      exact (here row held).2.2.1
    · obtain ⟨salt, seen, stamp⟩ := rows.drawn (others i eq ▸ held)
      exact ⟨salt, salts salt seen, stamp⟩
  · exact same_id_of_write (R := fun a b => passwordStamp a.hash = passwordStamp b.hash)
      Eq.symm others rows.distinct (fun a found j b held same =>
        (here a found).2.2.2 j b held (.inl same)) held held' same
  · exact same_id_of_write (R := fun a b => a.username = b.username)
      Eq.symm others rows.named (fun a found j b held same =>
        (here a found).2.2.2 j b held (.inr same)) held held' same
  · by_cases eq : i = id
    · subst eq
      exact (here row held).2.1
    · exact Nat.lt_of_lt_of_le (rows.below (others i eq ▸ held)) next

theorem Rows.unseen {t : Table} (rows : Rows t) (held : t.users.lookup id = some row)
    (unseen : salt ∉ t.salts) : passwordStamp row.hash ≠ Base64.encode salt :=
  (encode_ne_of_unseen (rows.drawn held) unseen).symm

theorem Rows.past_log {t : Table} (rows : Rows t) (account : Id) (kind : Ending) :
    ∀ e ∈ (t.log account kind).ended, e.time < (t.log account kind).clock := by
  intro e mem
  rcases List.mem_cons.mp mem with rfl | mem
  · exact Nat.lt_succ_self _
  · exact Nat.lt_succ_of_lt (rows.past e mem)

theorem Rows.effect {t t' : Table} (rows : Rows t) (effect : Effect t t') : Rows t' := by
  cases effect with
  | none => exact rows
  | @keep id row row' held written stamp epoch name enabled =>
    refine rows.write id (fun id' ne => by simp [ne]) (fun _ seen => seen) le_rfl rows.past ?_
    intro found lookup
    obtain rfl : row' = found := by simpa using lookup
    refine ⟨written, rows.below held, stamp ▸ rows.drawn held, fun id' old lookup same => ?_⟩
    rcases same with same | same
    · exact rows.distinct lookup held (same.trans stamp)
    · exact rows.named lookup held (same.trans name)
  | @create row salt written stamp unseen free =>
    refine rows.write t.next (fun id' ne => by simp [ne]) (fun _ seen =>
      List.mem_cons_of_mem _ seen)
      (Nat.le_succ _) rows.past ?_
    intro found lookup
    obtain rfl : row = found := by simpa using lookup
    refine ⟨written, Nat.lt_succ_self _, ⟨salt, List.mem_cons_self, stamp⟩,
      fun id' old lookup same => ?_⟩
    rcases same with same | same
    · exact absurd (same.trans stamp) (rows.unseen lookup unseen)
    · exact absurd same (free lookup)
  | @change id row row' salt held written stamp unseen epoch name disabled =>
    refine rows.write id (fun id' ne => by simp [Table.log, ne])
      (fun _ seen => List.mem_cons_of_mem _ seen) le_rfl (rows.past_log id .passwordChange) ?_
    intro found lookup
    obtain rfl : row' = found := by simpa [Table.log] using lookup
    refine ⟨written, rows.below held, ⟨salt, List.mem_cons_self, stamp⟩,
      fun id' old lookup same => ?_⟩
    rcases same with same | same
    · exact absurd (same.trans stamp) (rows.unseen lookup unseen)
    · exact rows.named lookup held (same.trans name)
  | @disable id row row' held hash epoch name =>
    refine rows.write id (fun id' ne => by simp [Table.log, ne]) (fun _ seen => seen) le_rfl
      (rows.past_log id .disable) ?_
    intro found lookup
    obtain rfl : row' = found := by simpa [Table.log] using lookup
    rw [hash]
    refine ⟨rows.written held, rows.below held, rows.drawn held, fun id' old lookup same => ?_⟩
    rcases same with same | same
    · exact rows.distinct lookup held same
    · exact rows.named lookup held (same.trans name)
  | @delete id row held =>
    refine rows.write id (fun id' ne => by simp [ne]) (fun _ seen => seen) le_rfl
      (rows.past_log id .delete) ?_
    intro found lookup
    simp at lookup

/-! ## A change of the own password -/

/-- No disable or delete of the account since a time. -/
def Untouched (ended : List Ended) (account : Id) (read : Nat) : Prop :=
  ∀ e ∈ ended, e.account = account → e.kind ≠ .passwordChange → e.time < read

/-- What is known of an account whose row was read at a time, enabled and with an epoch: the epoch
is the same exactly while the account was neither disabled nor deleted. -/
structure Reads (t : Table) (name : Text) (account : Id) (epoch read : Nat) : Prop where
  below : account < t.next
  before : read ≤ t.clock
  current : ∀ {row}, t.users.lookup account = some row →
    epoch ≤ row.epoch ∧ (row.epoch = epoch → Untouched t.ended account read)
  alive : Untouched t.ended account read → ∃ row, t.users.lookup account = some row ∧
    row.username = name ∧ row.disabled = false ∧ row.epoch = epoch

theorem Rows.reads {t : Table} (rows : Rows t) (held : t.users.lookup id = some row)
    (enabled : row.disabled = false) : Reads t row.username id row.epoch t.clock := by
  refine ⟨rows.below held, le_rfl, fun {found} lookup => ?_,
    fun _ => ⟨row, held, rfl, enabled, rfl⟩⟩
  obtain rfl : found = row := by
    rw [held] at lookup
    exact (Option.some.inj lookup).symm
  exact ⟨le_rfl, fun _ e mem _ _ => rows.past e mem⟩

variable {account : Id} {read : Nat}

theorem untouched_passwordChange : Untouched (⟨id, .passwordChange, clock⟩ :: ended) account read ↔
      Untouched ended account read := by
  refine ⟨fun held e mem => held e (List.mem_cons_of_mem _ mem), fun held e mem whose kind => ?_⟩
  rcases List.mem_cons.mp mem with rfl | mem
  · exact absurd rfl kind
  · exact held e mem whose kind

theorem untouched_cons {ended : List Ended} {account id : Id} {kind : Ending} {read clock : Nat}
    (counts : kind ≠ .passwordChange) (before : read ≤ clock) :
    Untouched (⟨id, kind, clock⟩ :: ended) account read ↔
      account ≠ id ∧ Untouched ended account read := by
  constructor
  · intro held
    refine ⟨fun eq => ?_, fun e mem => held e (List.mem_cons_of_mem _ mem)⟩
    have late : clock < read := held _ List.mem_cons_self eq.symm counts
    omega
  · rintro ⟨other, held⟩ e mem whose kind
    rcases List.mem_cons.mp mem with rfl | mem
    · exact absurd whose.symm other
    · exact held e mem whose kind

variable {epoch : Nat}

theorem Reads.effect {t t' : Table} (reads : Reads t name account epoch read)
    (effect : Effect t t') : Reads t' name account epoch read := by
  obtain ⟨below, before, current, alive⟩ := reads
  cases effect with
  | none => exact ⟨below, before, current, alive⟩
  | @keep id row row' held written stamp same named enabled =>
    by_cases eq : account = id
    · subst eq
      refine ⟨below, before, fun {found} lookup => ?_, fun untouched => ?_⟩
      · obtain rfl : row' = found := by simpa using lookup
        rw [same]
        exact current held
      · obtain ⟨found, lookup, username, on, count⟩ := alive untouched
        cases held.symm.trans lookup
        exact ⟨row', by simp, named.trans username, enabled on, same.trans count⟩
    · refine ⟨below, before, fun {found} lookup => ?_, fun untouched => ?_⟩
      · exact current (by simpa [eq] using lookup)
      · simpa [eq] using alive untouched
  | @create row salt written stamp unseen free =>
    have old := Nat.ne_of_lt below
    refine ⟨Nat.lt_succ_of_lt below, before, fun {found} lookup => ?_, fun untouched => ?_⟩
    · exact current (by simpa [old] using lookup)
    · simpa [old] using alive untouched
  | @change id row row' salt held written stamp unseen same named disabled =>
    simp only [Table.log]
    by_cases eq : account = id
    · subst eq
      refine ⟨below, Nat.le_succ_of_le before, fun {found} lookup => ?_, fun untouched => ?_⟩
      · obtain rfl : row' = found := by simpa using lookup
        rw [same, untouched_passwordChange]
        exact current held
      · obtain ⟨found, lookup, username, on, count⟩ := alive (untouched_passwordChange.mp untouched)
        cases held.symm.trans lookup
        exact ⟨row', by simp, named.trans username, disabled.trans on, same.trans count⟩
    · refine ⟨below, Nat.le_succ_of_le before, fun {found} lookup => ?_, fun untouched => ?_⟩
      · rw [untouched_passwordChange]
        exact current (by simpa [eq] using lookup)
      · simpa [eq] using alive (untouched_passwordChange.mp untouched)
  | @disable id row row' held hash raised named =>
    have ended := @untouched_cons t.ended account id .disable read t.clock (by decide) before
    refine ⟨below, Nat.le_succ_of_le before, fun {found} lookup => ?_, fun untouched => ?_⟩
    · simp only [Table.log, lookup_set] at lookup
      split at lookup
      next eq =>
        subst eq
        cases lookup
        have := (current held).1
        exact ⟨by omega, fun e => by omega⟩
      next other =>
        obtain ⟨least, rest⟩ := current lookup
        exact ⟨least, fun same => ended.mpr ⟨other, rest same⟩⟩
    · obtain ⟨other, before⟩ := ended.mp untouched
      simpa [Table.log, other] using alive before
  | @delete id row held =>
    have ended := @untouched_cons t.ended account id .delete read t.clock (by decide) before
    refine ⟨below, Nat.le_succ_of_le before, fun {found} lookup => ?_, fun untouched => ?_⟩
    · simp only [GoMap.lookup_erase_if] at lookup
      split at lookup
      next => cases lookup
      next other =>
        obtain ⟨least, rest⟩ := current lookup
        exact ⟨least, fun same => ended.mpr ⟨other, rest same⟩⟩
    · obtain ⟨other, before⟩ := ended.mp untouched
      simpa [other] using alive before

/-- The new hash, with the epoch that was read: it counts password changes from its own on. -/
theorem Reads.fits_changed {argon : Argon} {t t' : Table} {plain : Text}
    (reads : Reads t name account epoch read) (rows : Rows t)
    (done : t.updateUserPassword account salt (hashWithSalt argon plain salt) = some t') :
    Fits t' ⟨account, Base64.encode salt, epoch, read, t'.clock⟩ := by
  have after := reads.effect (effect_updateUserPassword done)
  have rows' := rows.effect (effect_updateUserPassword done)
  obtain ⟨length, unseen, row, held, rfl⟩ := updateUserPassword_some done
  refine ⟨⟨salt, List.mem_cons_self, rfl⟩, fun {id found} lookup same => ?_⟩
  have here : id = account := by
    by_contra ne
    simp only [Table.log, lookup_set, ne, if_false] at lookup
    exact rows.unseen lookup unseen same
  subst here
  obtain ⟨least, rest⟩ := after.current lookup
  refine ⟨rfl, least, fun same e mem whose => ?_⟩
  split
  next => exact rows'.past e mem
  next kind => exact rest same e mem whose kind

theorem Reads.lives_changed {argon : Argon} {t t' : Table} {plain : Text}
    (reads : Reads t name account epoch read)
    (done : t.updateUserPassword account salt (hashWithSalt argon plain salt) = some t') :
    Lives t' name ⟨account, Base64.encode salt, epoch, read, t'.clock⟩ := by
  have after := reads.effect (effect_updateUserPassword done)
  obtain ⟨length, -, row, held, rfl⟩ := updateUserPassword_some done
  refine ⟨after.before, le_rfl, fun undisturbed => ?_⟩
  have untouched : Untouched _ account read := fun e mem whose kind => by
    simpa [kind] using undisturbed e mem whose
  obtain ⟨found, lookup, username, on, count⟩ := after.alive untouched
  refine ⟨found, lookup, username, on, ?_, count⟩
  obtain rfl : _ = found := by simpa [Table.log] using lookup
  exact passwordStamp_hashWithSalt argon plain (ne_nil_of_length length)

end Kconmon.Console.Sessions
