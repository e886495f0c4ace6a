import Kconmon.Console.Rbac

/-!
# The last administrator stays

`Administers` says in its own terms who can manage users: an enabled user with a
role that grants it, bound directly or by default. The two guards decide it in two
ways, one by looking for somebody else, one by counting before and after. Every
committed write leaves an administrator if there was one
(`administered_of_committed`).
-/
namespace Kconmon.Console.Rbac
open Lib Authz

/-! ## Administrators -/

/-- What a role name grants: built-in roles first, then rows. -/
def Store.Grants (s : Store) (role : String) (perm : Permission) : Prop :=
  ∃ perms, (if isBuiltinRole role then builtinRoles.lookup role else s.roles.lookup role) =
    some perms ∧ perm ∈ perms

def Store.effectiveRoles (cfg : Config) (s : Store) (id : String) : List String :=
  if s.rolesFor id = [] then defaultRoles cfg else s.rolesFor id

def Administers (cfg : Config) (s : Store) (id : String) : Prop :=
  ∃ u, s.users.lookup id = some u ∧ u.disabled = false ∧
    ∃ role ∈ s.effectiveRoles cfg id, s.Grants role .usersManage

/-- Somebody can manage users. -/
def Administered (cfg : Config) (s : Store) : Prop := ∃ id, Administers cfg s id

theorem can_iff {s : Store} {roles : List String} {perm : Permission} :
    (newPolicy s.roles).can roles perm = true ↔ ∃ role ∈ roles, s.Grants role perm := by
  simp only [Policy.can, List.any_eq_true, lookup_newPolicy, Store.Grants]
  refine exists_congr fun role => and_congr_right fun _ => ?_
  split <;> simp_all

variable {id : String}

theorem holdsUsersManage_iff {cfg : Config} {s : Store} :
    holdsUsersManage cfg (newPolicy s.roles) (s.rolesFor id) = true ↔
      ∃ role ∈ s.effectiveRoles cfg id, s.Grants role .usersManage := can_iff

variable {u : User}

theorem canManageUsers_iff {cfg : Config} {s : Store} :
    canManageUsers cfg s (lastAdminPolicy s) id u = true ↔
      u.disabled = false ∧ ∃ role ∈ s.effectiveRoles cfg id, s.Grants role .usersManage := by
  rw [← holdsUsersManage_iff]
  unfold canManageUsers lastAdminPolicy
  cases u.disabled <;> simp

/-- A write that leaves a user's row, bindings and roles alone leaves them an administrator. -/
theorem Administers.frame {cfg : Config} {s s' : Store} (h : Administers cfg s id)
    (row : s'.users.lookup id = s.users.lookup id) (bound : s'.rolesFor id = s.rolesFor id)
    (roles : s'.roles = s.roles) : Administers cfg s' id := by
  obtain ⟨u, known, enabled, role, held, granted⟩ := h
  refine ⟨u, row.trans known, enabled, role, ?_, ?_⟩
  · rwa [Store.effectiveRoles, bound]
  · rwa [Store.Grants, roles]

/-- The user guard lets a change of one user pass only if somebody else administers, or the
user did not. -/
theorem administers_other {cfg : Config} {s : Store} (known : s.users.lookup id = some u)
    (held : Administered cfg s) (passed : wouldLockOut cfg s (lastAdminPolicy s) id u = false) :
    ∃ other, other ≠ id ∧ Administers cfg s other := by
  unfold wouldLockOut at passed
  split at passed
  · simp only [Bool.not_eq_false', List.any_eq_true, Bool.and_eq_true, decide_eq_true_eq] at passed
    obtain ⟨⟨other, v⟩, entry, differ, can⟩ := passed
    obtain ⟨enabled, holds⟩ := canManageUsers_iff.mp can
    exact ⟨other, differ, v, AList.mem_lookup_iff.mpr entry, enabled, holds⟩
  · rename_i cannot
    obtain ⟨holder, admin⟩ := held
    refine ⟨holder, ?_, admin⟩
    rintro rfl
    obtain ⟨v, row, enabled, holds⟩ := admin
    cases known.symm.trans row
    exact cannot (canManageUsers_iff.mpr ⟨enabled, holds⟩)

/-! ## The counting guard -/

theorem countHolders_pos {cfg : Config} {users : GoMap String User} {policy : Policy}
    {roles : GoMap String (List String)} : 0 < countHolders cfg users policy roles ↔
      ∃ id u, users.lookup id = some u ∧ u.disabled = false ∧
        holdsUsersManage cfg policy ((roles.lookup id).getD []) = true := by
  simp only [countHolders, List.countP_pos_iff, Bool.and_eq_true, Bool.not_eq_true']
  constructor
  · rintro ⟨⟨id, u⟩, entry, enabled, holds⟩
    exact ⟨id, u, AList.mem_lookup_iff.mpr entry, enabled, holds⟩
  · rintro ⟨id, u, known, enabled, holds⟩
    exact ⟨⟨id, u⟩, AList.mem_lookup_iff.mp known, enabled, holds⟩

/-- Counting over maps that hold the store's own roles and bindings. -/
theorem countHolders_pos_iff_administered {cfg : Config} {s : Store}
    {roles : GoMap String (List String)} (bound : ∀ id, (roles.lookup id).getD [] = s.rolesFor id) :
    0 < countHolders cfg s.users (newPolicy s.roles) roles ↔ Administered cfg s := by
  simp only [countHolders_pos, bound, holdsUsersManage_iff]
  rfl

theorem lookup_foldl_addRole (bindings : List RoleBinding) (id : String) :
    (((bindings.filter (·.subjectKind = .user)).foldl
      (fun m b => addRole m b.subjectID b.roleName) ∅).lookup id).getD [] =
      (bindings.filter (·.names id)).map RoleBinding.roleName := by
  have collected := GoMap.lookup_foldl_append RoleBinding.subjectID RoleBinding.roleName
    (bindings.filter (·.subjectKind = .user)) ∅ id
  rw [List.filter_filter] at collected
  simp only [AList.lookup_empty, Option.getD_none, List.nil_append] at collected
  rw [← show (fun b : RoleBinding => decide (b.subjectID = id) && decide (b.subjectKind = .user)) =
    (·.names id) from funext fun b => Bool.and_comm _ _]
  exact collected

theorem lookup_rolesBefore (s : Store) (id : String) :
    ((rolesBefore s).lookup id).getD [] = s.rolesFor id := lookup_foldl_addRole s.bindings id

theorem lookup_rolesAfter (s : Store) (change : RbacChange) (id : String) :
    ((rolesAfter s change).lookup id).getD [] =
      ((s.bindings.filter (·.id ≠ change.dropBinding)).filter (·.names id)).map
        RoleBinding.roleName ++
      match change.addBinding with
      | some b => if b.subjectKind = .user ∧ b.subjectID = id then [b.roleName] else []
      | none => [] := by
  have kept := lookup_foldl_addRole (s.bindings.filter (·.id ≠ change.dropBinding)) id
  rw [List.filter_filter, List.filter_congr fun b _ => Bool.and_comm _ _, ← List.filter_filter]
    at kept
  unfold rolesAfter
  cases change.addBinding with
  | none => simpa using kept
  | some b =>
    dsimp only
    by_cases user : b.subjectKind = .user
    · rw [if_pos user, addRole, GoMap.lookup_insert_if]
      by_cases same : id = b.subjectID
      · subst same
        rw [if_pos rfl, Option.getD_some, kept, if_pos ⟨user, rfl⟩]
      · rw [if_neg same, kept, if_neg fun h => same h.2.symm, List.append_nil]
    · rw [if_neg user, kept, if_neg fun h => user h.1, List.append_nil]

/-- Where the guard foresees the store after the write, a write it lets pass leaves an
administrator. -/
theorem administered_of_guard {cfg : Config} {s s' : Store} {change : RbacChange}
    (passed : rbacLastAdminGuard cfg s change = .ok ()) (committed : change.pendingRoles = ∅)
    (held : Administered cfg s) (users : s'.users = s.users)
    (roles : s'.roles = changedRoles s change)
    (bound : ∀ id, ((rolesAfter s change).lookup id).getD [] = s'.rolesFor id) :
    Administered cfg s' := by
  have custom : customRoles s change = s.roles := by
    rw [customRoles, committed]
    rfl
  have before := (countHolders_pos_iff_administered (lookup_rolesBefore s)).mpr held
  rw [← countHolders_pos_iff_administered bound, users, roles]
  simp only [rbacLastAdminGuard, usersManageHolders, custom] at passed
  split at passed
  · cases passed
  · omega

/-! ## Role and binding writes -/

section
variable {cfg : Config} {s s' : Store}

/-- No binding has the id that stands for none. -/
theorem filter_dropBinding_zero (s : Store) : s.bindings.filter (·.id ≠ 0) = s.bindings := by
  refine List.filter_eq_self.mpr fun b _ => ?_
  have := b.positive
  simp only [ne_eq, decide_eq_true_eq]
  omega

theorem lookup_rolesAfter_of_roles {change : RbacChange} (drop : change.dropBinding = 0)
    (add : change.addBinding = none) (id : String) :
    ((rolesAfter s change).lookup id).getD [] = s.rolesFor id := by
  rw [lookup_rolesAfter, drop, filter_dropBinding_zero, add]
  simp [Store.rolesFor]

variable {name : String}

theorem grants_insert {role : String} {perms : List Permission} (manages : .usersManage ∈ perms)
    (custom : isBuiltinRole name = false) (granted : s.Grants role .usersManage) :
    Store.Grants { s with roles := AList.insert name perms s.roles } role .usersManage := by
  obtain ⟨old, looked, mem⟩ := granted
  unfold Store.Grants
  simp only [GoMap.lookup_insert_if]
  by_cases same : role = name
  · subst same
    simp [custom, manages]
  · exact ⟨old, by simpa [same] using looked, mem⟩

section
variable (held : Administered cfg s)
include held

theorem administered_upsertRoleGuarded {perms : List Permission}
    (nonempty : name ≠ "") (custom : isBuiltinRole name = false)
    (done : upsertRoleGuarded cfg s name perms = .ok s') : Administered cfg s' := by
  unfold upsertRoleGuarded at done
  dsimp only at done
  split at done <;> cases done
  rename_i passed
  split at passed
  · rename_i manages
    obtain ⟨id, u, known, enabled, role, bound, granted⟩ := held
    exact ⟨id, u, known, enabled, role, bound,
      grants_insert (List.contains_iff_mem.mp manages) custom granted⟩
  · refine administered_of_guard passed rfl held rfl ?_ (lookup_rolesAfter_of_roles rfl rfl)
    simp [changedRoles, customRoles, nonempty]

theorem administered_createRole {permissions : List String}
    (done : createRole cfg s name permissions = .ok s') : Administered cfg s' := by
  unfold createRole at done
  split at done
  · cases done
  · rename_i nonempty
    split at done
    · cases done
    · split at done
      · cases done
      · rename_i custom
        split at done
        · cases done
        · exact administered_upsertRoleGuarded held nonempty (by simpa using custom) done

theorem administered_importRole {stored : Option (List Permission)} {permissions : List String}
    (done : importRole cfg s stored name permissions = .ok s') : Administered cfg s' := by
  unfold importRole at done
  split at done
  · cases done
  · rename_i custom
    split at done
    · cases done
    · rename_i well_named
      have nonempty : name ≠ "" := by
        rintro rfl
        exact well_named (by decide)
      split at done
      · cases done
      · split at done
        · cases done
        · exact administered_upsertRoleGuarded held nonempty (by simpa using custom) done

theorem administered_deleteRole
    (done : deleteRole cfg s name = .ok s') : Administered cfg s' := by
  unfold deleteRole at done
  split at done
  · cases done
  · rename_i nonempty
    split at done
    · cases done
    · split at done
      · cases done
      · rename_i passed
        split at done <;> cases done
        refine administered_of_guard passed rfl held rfl ?_ (lookup_rolesAfter_of_roles rfl rfl)
        simp [changedRoles, customRoles, nonempty]

end

variable {roleName subjectID : String}

theorem createBindingRow_ok {kind : SubjectKind}
    (done : createBindingRow s roleName kind subjectID = .ok s') :
    s' = insertBinding s roleName kind subjectID := by
  unfold createBindingRow at done
  split at done
  · cases done
  · exact (Except.ok.inj done).symm

theorem rolesFor_insertBinding (s : Store) (roleName : String) (kind : SubjectKind)
    (subjectID id : String) : (insertBinding s roleName kind subjectID).rolesFor id =
      s.rolesFor id ++ if kind = .user ∧ subjectID = id then [roleName] else [] := by
  simp only [Store.rolesFor, insertBinding, List.filter_append, List.map_append]
  congr 1
  by_cases named : kind = .user ∧ subjectID = id
  · simp [RoleBinding.names, named]
  · have other : (decide (kind = .user) && decide (subjectID = id)) = false := by simpa using named
    simp [RoleBinding.names, other, named]

/-- A binding that was created passed the guard, under the kind it names. -/
theorem createBinding_ok {subjectKind : String}
    (done : createBinding cfg s roleName subjectKind subjectID = .ok s') :
    ∃ kind, rbacLastAdminGuard cfg s { addBinding := some ⟨roleName, kind, subjectID⟩ } = .ok () ∧
      s' = insertBinding s roleName kind subjectID := by
  unfold createBinding at done
  iterate 4
    split at done
    next => cases done
  split at done
  next => cases done
  next kind _ =>
    split at done
    next => cases done
    next =>
      split at done
      next => cases done
      next passed => exact ⟨kind, passed, createBindingRow_ok done⟩

theorem administered_createBinding {subjectKind : String} (held : Administered cfg s)
    (done : createBinding cfg s roleName subjectKind subjectID = .ok s') : Administered cfg s' := by
  obtain ⟨kind, passed, rfl⟩ := createBinding_ok done
  refine administered_of_guard passed rfl held rfl
    (by simp [changedRoles, customRoles, insertBinding])
    fun id => ?_
  rw [lookup_rolesAfter, filter_dropBinding_zero, rolesFor_insertBinding]
  rfl

theorem administered_deleteBinding {id : Nat} (held : Administered cfg s)
    (done : deleteBinding cfg s id = .ok s') : Administered cfg s' := by
  unfold deleteBinding at done
  split at done
  · split at done <;> cases done
    rename_i passed
    refine administered_of_guard passed rfl held rfl (by simp [changedRoles, customRoles])
      fun user => ?_
    rw [lookup_rolesAfter]
    simp [Store.rolesFor]
  · cases done

/-! ## User writes -/

/-- A user's own bindings going away leave everybody else's roles. -/
theorem rolesFor_of_ne {other : String} (differ : other ≠ id) :
    ((s.bindings.filter (!·.names id)).filter (·.names other)).map RoleBinding.roleName =
      s.rolesFor other := by
  rw [List.filter_filter, Store.rolesFor]
  congr 1
  refine List.filter_congr fun b _ => ?_
  simp only [RoleBinding.names]
  grind

theorem administered_createUser {username role : String} (held : Administered cfg s)
    (done : createUser s id username role = .ok s') : Administered cfg s' := by
  unfold createUser at done
  split at done
  · cases done
  · split at done
    · cases done
    · rename_i free
      obtain rfl := createBindingRow_ok done
      obtain ⟨holder, admin⟩ := held
      have differ : holder ≠ id := by
        rintro rfl
        obtain ⟨u, known, -⟩ := admin
        simp [known] at free
      refine ⟨holder, admin.frame ?_ ?_ rfl⟩
      · simp [insertBinding, differ]
      · rw [rolesFor_insertBinding, if_neg (by simp [Ne.symm differ]), List.append_nil]
        rfl

theorem administered_deleteUser (held : Administered cfg s) (done : deleteUser cfg s id = .ok s') :
    Administered cfg s' := by
  unfold deleteUser at done
  split at done
  · cases done
  · rename_i u known
    split at done <;> cases done
    rename_i passed
    obtain ⟨other, differ, admin⟩ := administers_other known held (by simpa using passed)
    exact ⟨other, admin.frame (by simp [differ]) (rolesFor_of_ne differ) rfl⟩

variable {disabled : Option Bool} {role : Option String}

/-- The three ways past the guard of a patch. -/
theorem patchGuard_ok (passed : patchGuard cfg s id u disabled role = .ok ()) :
    disabled ≠ some true ∧ role = none ∨
    disabled ≠ some true ∧ (∃ name, role = some name ∧ s.Grants name .usersManage) ∨
    wouldLockOut cfg s (lastAdminPolicy s) id u = false := by
  unfold patchGuard at passed
  dsimp only at passed
  split at passed
  · rename_i only_enables
    exact .inl only_enables
  · split at passed
    · cases passed
    · split at passed
      · rename_i keeps
        obtain ⟨name, mem, granted⟩ := can_iff.mp keeps.2
        exact .inr (.inl ⟨keeps.1, name, Option.mem_toList.mp mem, granted⟩)
      · split at passed
        · cases passed
        · rename_i free
          exact .inr (.inr (by simpa using free))

/-- What a patch writes. -/
theorem patchUser_ok (done : patchUser cfg s id disabled role = .ok s') :
    ∃ u, s.users.lookup id = some u ∧ patchGuard cfg s id u disabled role = .ok () ∧
      s'.roles = s.roles ∧
      s'.users = AList.insert id { u with disabled := disabled.getD u.disabled } s.users ∧
      (∀ other, other ≠ id → s'.rolesFor other = s.rolesFor other) ∧
      s'.rolesFor id = role.elim (s.rolesFor id) fun name => [name] := by
  unfold patchUser at done
  split at done
  · cases done
  · split at done
    · cases done
    · rename_i u known
      split at done
      · cases done
      · rename_i passed
        dsimp only at done
        cases role with
        | none =>
          cases done
          exact ⟨u, known, passed, rfl, rfl, fun _ _ => rfl, rfl⟩
        | some name =>
          obtain rfl := createBindingRow_ok done
          refine ⟨u, known, passed, rfl, rfl, fun other differ => ?_, ?_⟩
          · rw [rolesFor_insertBinding, if_neg fun h => differ h.2.symm, List.append_nil]
            exact rolesFor_of_ne differ
          · rw [rolesFor_insertBinding, if_pos ⟨rfl, rfl⟩]
            simp [Store.rolesFor]

theorem administered_patchUser (held : Administered cfg s)
    (done : patchUser cfg s id disabled role = .ok s') : Administered cfg s' := by
  obtain ⟨u, known, passed, roles, users, others, own⟩ := patchUser_ok done
  have other_stays : ∀ other, other ≠ id → Administers cfg s other → Administered cfg s' := by
    intro other differ admin
    exact ⟨other, admin.frame (by simp [users, differ]) (others other differ) roles⟩
  have stays_enabled : disabled ≠ some true → u.disabled = false →
      disabled.getD u.disabled = false := by
    intro not_disabling enabled
    cases disabled with
    | none => exact enabled
    | some b => simpa using not_disabling
  rcases patchGuard_ok passed with ⟨enables, rfl⟩ | ⟨enables, name, rfl, granted⟩ | free
  · obtain ⟨holder, admin⟩ := held
    by_cases same : holder = id
    · subst same
      obtain ⟨v, row, enabled, role, bound, granted⟩ := admin
      cases known.symm.trans row
      refine ⟨holder, _, by rw [users]; exact AList.lookup_insert _, stays_enabled enables enabled,
        role, ?_, ?_⟩
      · rwa [Store.effectiveRoles, own]
      · rwa [Store.Grants, roles]
    · exact other_stays holder same admin
  · obtain ⟨holder, admin⟩ := held
    by_cases same : holder = id
    · subst same
      obtain ⟨v, row, enabled, -⟩ := admin
      cases known.symm.trans row
      refine ⟨holder, _, by rw [users]; exact AList.lookup_insert _, stays_enabled enables enabled,
        name, ?_, ?_⟩
      · simp [Store.effectiveRoles, own]
      · rwa [Store.Grants, roles]
    · exact other_stays holder same admin
  · obtain ⟨other, differ, admin⟩ := administers_other known held free
    exact other_stays other differ admin

theorem apply_of_step {w : Write} (committed : s.step cfg w = some s') :
    s.apply cfg w = .ok s' := by
  unfold Store.step at committed
  cases applied : s.apply cfg w with
  | error e => simp [applied, Except.toOption] at committed
  | ok t => simpa [applied, Except.toOption] using committed

theorem administered_step {w : Write} (held : Administered cfg s)
    (committed : s.step cfg w = some s') : Administered cfg s' := by
  have done := apply_of_step committed
  cases w with
  | createUser id username role => exact administered_createUser held done
  | patchUser id disabled role => exact administered_patchUser held done
  | deleteUser id => exact administered_deleteUser held done
  | createRole name permissions => exact administered_createRole held done
  | importRole stored name permissions => exact administered_importRole held done
  | deleteRole name => exact administered_deleteRole held done
  | createBinding roleName kind subject => exact administered_createBinding held done
  | deleteBinding id => exact administered_deleteBinding held done

end

/-- Whatever writes are committed, in whatever order, somebody who can manage users stays. -/
theorem administered_of_committed (cfg : Config) {s s' : Store}
    (run : Reaches (Store.step cfg) (fun _ _ => True) s s') (held : Administered cfg s) :
    Administered cfg s' :=
  run.invariant held fun _ _ _ held _ committed => administered_step held committed

/-- One administrator, bound to the built-in role. -/
def oneAdmin : Store :=
  { users := AList.insert "u1" { username := "root" } ∅
    bindings := [⟨1, "admin", .user, "u1", Nat.one_pos⟩]
    serial := 1 }

/-- The account is handed over to a user who holds users:manage through a custom role. -/
def handover : List Write :=
  [.createRole "keeper" ["users:manage"], .createUser "u2" "second" "keeper",
    .createBinding "viewer" "group" "staff", .patchUser "u1" none (some "viewer"), .deleteUser "u1"]

theorem administered_of_committed_handover :
    ∃ s', Reaches (Store.step {}) (fun _ _ => True) oneAdmin s' ∧ Administered {} oneAdmin ∧
      Administered {} s' ∧ s'.users.lookup "u1" = none ∧
      s'.step {} (.createRole "keeper" ["runs:read"]) = none := by
  let s' := (exec (guarded (Store.step {}) fun _ _ => True) oneAdmin handover).get
    (by decide)
  have run : Reaches (Store.step {}) (fun _ _ => True) oneAdmin s' :=
    Reaches.of_exec (Option.some_get _).symm
  have start : Administered {} oneAdmin := by
    refine ⟨"u1", { username := "root" }, by decide, rfl, "admin", by decide, allPermissions, ?_⟩
    decide
  have refused : (s'.step {} (.createRole "keeper" ["runs:read"])).isNone = true := by
    decide
  exact ⟨s', run, start, administered_of_committed {} run start, by decide,
    Option.isNone_iff_eq_none.mp refused⟩

end Kconmon.Console.Rbac
