import Kconmon.Console.Authz
import Kconmon.Lib.Runs
import Kconmon.Lib.Text

/-!
# User, role and binding writes

Every write runs its guard and then itself in one transaction under one advisory
lock, so a write is one step of the store. `apply` is that step: the refusal the
handler answers with, or the store after the commit.
-/
namespace Kconmon.Console.Rbac
open Lib Authz

/-! ## The store -/

structure User where
  username : String
  disabled : Bool := false
  deriving DecidableEq

inductive SubjectKind where
  | user | group | token
  deriving DecidableEq

/-- A binding row. Its id is drawn from a sequence that starts at 1. -/
structure RoleBinding where
  id : Nat
  roleName : String
  subjectKind : SubjectKind
  subjectID : String
  positive : 0 < id
  deriving DecidableEq

structure Store where
  users : GoMap String User := ∅
  roles : GoMap String (List Permission) := ∅
  bindings : List RoleBinding := []
  /-- The last binding id drawn. -/
  serial : Nat := 0

def RoleBinding.names (b : RoleBinding) (userID : String) : Bool :=
  b.subjectKind = .user && b.subjectID = userID

/-- The roles bound to a user directly; local users carry no groups. -/
def Store.rolesFor (s : Store) (userID : String) : List String :=
  (s.bindings.filter (·.names userID)).map RoleBinding.roleName

/-- The settings the guards read: `auth.defaultRole`, empty for none. -/
structure Config where
  defaultRole : String := ""
  deriving DecidableEq

def defaultRoles (cfg : Config) : List String :=
  if cfg.defaultRole = "" then [] else [cfg.defaultRole]

/-- Why a write is not committed. -/
inductive Refusal where
  | emptyPatch
  | userNotFound
  | usernameTaken
  | unknownRole
  | lastAdmin
  | invalidRole (problem : String)
  | reservedRoleName
  | unknownPermission (name : String)
  | unchanged
  | roleInUse
  | roleNotFound
  | missingField
  | controlChars (field : String)
  | subjectTooLong (bytes : Nat)
  | invalidSubjectKind
  | bindingExists
  | bindingNotFound
  deriving DecidableEq

/-! ## The guard of the user writes -/

def holdsUsersManage (cfg : Config) (policy : Policy) (roles : List String) : Bool :=
  policy.can (if roles = [] then defaultRoles cfg else roles) .usersManage

def lastAdminPolicy (s : Store) : Policy := newPolicy s.roles

def canManageUsers (cfg : Config) (s : Store) (policy : Policy) (id : String) (u : User) : Bool :=
  if u.disabled then false else holdsUsersManage cfg policy (s.rolesFor id)

/-- Whether taking users:manage away from the target leaves nobody who has it. -/
def wouldLockOut (cfg : Config) (s : Store) (policy : Policy) (id : String) (target : User) :
    Bool :=
  if canManageUsers cfg s policy id target then
    !s.users.entries.any fun e => e.1 ≠ id && canManageUsers cfg s policy e.1 e.2
  else false

/-! ## The guard of the role and binding writes -/

structure BindingRequest where
  roleName : String
  subjectKind : SubjectKind
  subjectID : String
  deriving DecidableEq

structure RbacChange where
  dropBinding : Nat := 0
  addBinding : Option BindingRequest := none
  role : String := ""
  permissions : List Permission := []
  deleteRole : Bool := false
  /-- Role writes of a dry run; no commit carries any. -/
  pendingRoles : GoMap String (List Permission) := ∅

def addRole (m : GoMap String (List String)) (subject role : String) : GoMap String (List String) :=
  AList.insert subject ((m.lookup subject).getD [] ++ [role]) m

def countHolders (cfg : Config) (users : GoMap String User) (policy : Policy)
    (roles : GoMap String (List String)) : Nat :=
  users.entries.countP fun e =>
    !e.2.disabled && holdsUsersManage cfg policy ((roles.lookup e.1).getD [])

def customRoles (s : Store) (change : RbacChange) : GoMap String (List Permission) :=
  change.pendingRoles.entries.foldl (fun m e => AList.insert e.1 e.2 m) s.roles

def changedRoles (s : Store) (change : RbacChange) : GoMap String (List Permission) :=
  if change.role ≠ "" ∧ change.deleteRole then AList.erase change.role (customRoles s change)
  else if change.role ≠ "" then AList.insert change.role change.permissions (customRoles s change)
  else customRoles s change

def rolesBefore (s : Store) : GoMap String (List String) :=
  (s.bindings.filter (·.subjectKind = .user)).foldl
    (fun m b => addRole m b.subjectID b.roleName) ∅

def rolesAfter (s : Store) (change : RbacChange) : GoMap String (List String) :=
  let kept := ((s.bindings.filter (·.subjectKind = .user)).filter (·.id ≠ change.dropBinding)).foldl
    (fun m b => addRole m b.subjectID b.roleName) ∅
  match change.addBinding with
  | some b => if b.subjectKind = .user then addRole kept b.subjectID b.roleName else kept
  | none => kept

/-- The enabled holders of users:manage now and after the change. -/
def usersManageHolders (cfg : Config) (s : Store) (change : RbacChange) : Nat × Nat :=
  (countHolders cfg s.users (newPolicy (customRoles s change)) (rolesBefore s),
    countHolders cfg s.users (newPolicy (changedRoles s change)) (rolesAfter s change))

def rbacLastAdminGuard (cfg : Config) (s : Store) (change : RbacChange) : Except Refusal Unit :=
  let (before, after) := usersManageHolders cfg s change
  if before > 0 ∧ after = 0 then .error .lastAdmin else .ok ()

/-! ## User writes -/

def requireKnownRole (s : Store) (name : String) : Except Refusal Unit :=
  if isBuiltinRole name then .ok ()
  else if (s.roles.lookup name).isSome then .ok ()
  else .error .unknownRole

def insertBinding (s : Store) (roleName : String) (subjectKind : SubjectKind) (subjectID : String) :
    Store :=
  { s with
    bindings := s.bindings ++
      [{ id := s.serial + 1, roleName, subjectKind, subjectID, positive := Nat.succ_pos _ }]
    serial := s.serial + 1 }

/-- The INSERT under the table's unique constraint. -/
def createBindingRow (s : Store) (roleName : String) (subjectKind : SubjectKind)
    (subjectID : String) : Except Refusal Store :=
  if s.bindings.any fun b =>
      b.roleName = roleName && b.subjectKind = subjectKind && b.subjectID = subjectID then
    .error .bindingExists
  else .ok (insertBinding s roleName subjectKind subjectID)

/-- A new user under the id the database draws for it, with its one binding. -/
def createUser (s : Store) (id username role : String) : Except Refusal Store :=
  match requireKnownRole s role with
  | .error e => .error e
  | .ok () =>
    if s.users.entries.any (·.2.username = username) || (s.users.lookup id).isSome then
      .error .usernameTaken
    else createBindingRow { s with users := AList.insert id { username } s.users } role .user id

/-- Replaces every direct binding of the user with one. -/
def setUserRole (s : Store) (id role : String) : Except Refusal Store :=
  createBindingRow { s with bindings := s.bindings.filter (!·.names id) } role .user id

def patchGuard (cfg : Config) (s : Store) (id : String) (u : User) (disabled : Option Bool)
    (role : Option String) : Except Refusal Unit :=
  let disabling := disabled = some true
  -- A patch that only enables takes nothing away and has no guard.
  if ¬ disabling ∧ role = none then .ok ()
  else
    match role.elim (.ok ()) (requireKnownRole s) with
    | .error e => .error e
    | .ok () =>
      let policy := lastAdminPolicy s
      if ¬ disabling ∧ policy.can role.toList .usersManage then .ok ()
      else if wouldLockOut cfg s policy id u then .error .lastAdmin
      else .ok ()

def patchUser (cfg : Config) (s : Store) (id : String) (disabled : Option Bool)
    (role : Option String) : Except Refusal Store :=
  if disabled = none ∧ role = none then .error .emptyPatch
  else
    match s.users.lookup id with
    | none => .error .userNotFound
    | some u =>
      match patchGuard cfg s id u disabled role with
      | .error e => .error e
      | .ok () =>
        let written : User := { u with disabled := disabled.getD u.disabled }
        let s := { s with users := AList.insert id written s.users }
        match role with
        | some role => setUserRole s id role
        | none => .ok s

def deleteUser (cfg : Config) (s : Store) (id : String) : Except Refusal Store :=
  match s.users.lookup id with
  | none => .error .userNotFound
  | some u =>
    if wouldLockOut cfg s (lastAdminPolicy s) id u then .error .lastAdmin
    else .ok { s with
      users := AList.erase id s.users
      bindings := s.bindings.filter (!·.names id) }

/-! ## Role writes -/

def nameMaxLen : Nat := 63
def subjectIDMaxLen : Nat := 255

/-- `unicode.IsControl` -/
def isControl (c : Char) : Bool := c.toNat < 0x20 || 0x7F ≤ c.toNat && c.toNat ≤ 0x9F

/-- A string of the model is valid UTF-8 already. -/
def invalidParamText (v : String) : Bool := v.toList.any isControl

def roleNameProblem (name : String) : String :=
  if name.toList.all isSpace then "role: name must not be empty"
  else if invalidParamText name then "role: name must be valid UTF-8 without control characters"
  else if name.toList.contains '/' then
    "role: name may not contain \"/\" — the name addresses the role in its own API path"
  else if name.utf8ByteSize > nameMaxLen then
    s!"role: name is {name.utf8ByteSize} bytes, limit is {nameMaxLen}"
  else ""

def sanitizeRolePermissions (permissions : List String) : Except Refusal (List Permission) :=
  permissions.foldlM (fun out p =>
    match permissionNamed p with
    | none => .error (.unknownPermission p)
    | some known => .ok (if out.contains known then out else out ++ [known])) []

/-- `UpsertRoleGuarded`; a role that grants users:manage needs no guard. -/
def upsertRoleGuarded (cfg : Config) (s : Store) (name : String) (perms : List Permission) :
    Except Refusal Store :=
  let guard :=
    if perms.contains .usersManage then .ok ()
    else rbacLastAdminGuard cfg s { role := name, permissions := perms }
  match guard with
  | .error e => .error e
  | .ok () => .ok { s with roles := AList.insert name perms s.roles }

/-- POST of a custom role. -/
def createRole (cfg : Config) (s : Store) (name : String) (permissions : List String) :
    Except Refusal Store :=
  if name = "" then .error .missingField
  else if roleNameProblem name ≠ "" then .error (.invalidRole (roleNameProblem name))
  else if isBuiltinRole name then .error .reservedRoleName
  else
    match sanitizeRolePermissions permissions with
    | .error e => .error e
    | .ok perms => upsertRoleGuarded cfg s name perms

/-- One role of an import. What the import read of the role before is `stored`; a write
may have landed since. -/
def importRole (cfg : Config) (s : Store) (stored : Option (List Permission)) (name : String)
    (permissions : List String) : Except Refusal Store :=
  if isBuiltinRole name then .error .reservedRoleName
  else if roleNameProblem name ≠ "" then .error (.invalidRole (roleNameProblem name))
  else
    match sanitizeRolePermissions permissions with
    | .error e => .error e
    | .ok perms =>
      if stored.any fun cur => cur.all perms.contains && perms.all cur.contains then
        .error .unchanged
      else upsertRoleGuarded cfg s name perms

def deleteRole (cfg : Config) (s : Store) (name : String) : Except Refusal Store :=
  -- The name is a path segment, which the router does not match when it is empty.
  if name = "" then .error .roleNotFound
  else if s.bindings.any (·.roleName = name) then .error .roleInUse
  else
    match rbacLastAdminGuard cfg s { role := name, deleteRole := true } with
    | .error e => .error e
    | .ok () =>
      if (s.roles.lookup name).isSome then .ok { s with roles := AList.erase name s.roles }
      else .error .roleNotFound

/-! ## Binding writes -/

/-- The kinds a binding can be created with. -/
def validSubjectKind : String → Option SubjectKind
  | "user" => some .user
  | "group" => some .group
  | _ => none

def createBinding (cfg : Config) (s : Store) (roleName subjectKind subjectID : String) :
    Except Refusal Store :=
  if roleName = "" ∨ subjectID = "" then .error .missingField
  else if invalidParamText subjectID then .error (.controlChars "subjectId")
  else if invalidParamText roleName then .error (.controlChars "roleName")
  else if subjectID.utf8ByteSize > subjectIDMaxLen then
    .error (.subjectTooLong subjectID.utf8ByteSize)
  else
    match validSubjectKind subjectKind with
    | none => .error .invalidSubjectKind
    | some kind =>
      match requireKnownRole s roleName with
      | .error e => .error e
      | .ok () =>
        match rbacLastAdminGuard cfg s { addBinding := some ⟨roleName, kind, subjectID⟩ } with
        | .error e => .error e
        | .ok () => createBindingRow s roleName kind subjectID

def deleteBinding (cfg : Config) (s : Store) (id : Nat) : Except Refusal Store :=
  if s.bindings.any (·.id = id) then
    match rbacLastAdminGuard cfg s { dropBinding := id } with
    | .error e => .error e
    | .ok () => .ok { s with bindings := s.bindings.filter (·.id ≠ id) }
  else .error .bindingNotFound

/-! ## Runs -/

inductive Write where
  | createUser (id username role : String)
  | patchUser (id : String) (disabled : Option Bool) (role : Option String)
  | deleteUser (id : String)
  | createRole (name : String) (permissions : List String)
  | importRole (stored : Option (List Permission)) (name : String) (permissions : List String)
  | deleteRole (name : String)
  | createBinding (roleName subjectKind subjectID : String)
  | deleteBinding (id : Nat)
  deriving DecidableEq

def Store.apply (cfg : Config) (s : Store) : Write → Except Refusal Store
  | .createUser id username role => Rbac.createUser s id username role
  | .patchUser id disabled role => Rbac.patchUser cfg s id disabled role
  | .deleteUser id => Rbac.deleteUser cfg s id
  | .createRole name permissions => Rbac.createRole cfg s name permissions
  | .importRole stored name permissions => Rbac.importRole cfg s stored name permissions
  | .deleteRole name => Rbac.deleteRole cfg s name
  | .createBinding roleName kind subject => Rbac.createBinding cfg s roleName kind subject
  | .deleteBinding id => Rbac.deleteBinding cfg s id

/-- A committed write. -/
def Store.step (cfg : Config) (s : Store) (w : Write) : Option Store := (s.apply cfg w).toOption

end Kconmon.Console.Rbac
