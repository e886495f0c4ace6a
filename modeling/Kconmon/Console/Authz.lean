import Kconmon.Lib.GoMap

/-!
# Permissions, roles and the policy

The permission set is closed. Built-in roles are compiled in; a custom role is a
row, and a row named like a built-in role is ignored.
-/
namespace Kconmon.Console.Authz
open Lib

inductive Permission where
  | topologyRead | matrixRead | eventsRead | promQLQuery | runsRead | runsCreate | auditRead
  | rbacManage | tokensManage | usersManage | settingsWrite | targetsRead | targetsWrite
  | checksRead | checksWrite | schedulesWrite | mtrRead | annotationsRead | annotationsWrite
  | incidentsRead | incidentsWrite | maintenanceRead | maintenanceWrite | webhooksManage
  | alertsRead | alertsManage
  deriving DecidableEq

def allPermissions : List Permission :=
  [.topologyRead, .matrixRead, .eventsRead, .promQLQuery, .runsRead, .runsCreate, .auditRead,
    .rbacManage, .tokensManage, .usersManage, .settingsWrite, .targetsRead, .targetsWrite,
    .checksRead, .checksWrite, .schedulesWrite, .mtrRead, .annotationsRead, .annotationsWrite,
    .incidentsRead, .incidentsWrite, .maintenanceRead, .maintenanceWrite, .webhooksManage,
    .alertsRead, .alertsManage]

def Permission.name : Permission → String
  | .topologyRead => "topology:read"
  | .matrixRead => "matrix:read"
  | .eventsRead => "events:read"
  | .promQLQuery => "promql:query"
  | .runsRead => "runs:read"
  | .runsCreate => "runs:create"
  | .auditRead => "audit:read"
  | .rbacManage => "rbac:manage"
  | .tokensManage => "tokens:manage"
  | .usersManage => "users:manage"
  | .settingsWrite => "settings:write"
  | .targetsRead => "targets:read"
  | .targetsWrite => "targets:write"
  | .checksRead => "checks:read"
  | .checksWrite => "checks:write"
  | .schedulesWrite => "schedules:write"
  | .mtrRead => "mtr:read"
  | .annotationsRead => "annotations:read"
  | .annotationsWrite => "annotations:write"
  | .incidentsRead => "incidents:read"
  | .incidentsWrite => "incidents:write"
  | .maintenanceRead => "maintenance:read"
  | .maintenanceWrite => "maintenance:write"
  | .webhooksManage => "webhooks:manage"
  | .alertsRead => "alerts:read"
  | .alertsManage => "alerts:manage"

/-- The permission a string names, if this build knows it. -/
def permissionNamed (p : String) : Option Permission := allPermissions.find? (·.name = p)

def viewer : List Permission :=
  [.topologyRead, .matrixRead, .eventsRead, .promQLQuery, .runsRead, .mtrRead, .annotationsRead,
    .incidentsRead, .maintenanceRead, .alertsRead]

def operator : List Permission :=
  [.topologyRead, .matrixRead, .eventsRead, .promQLQuery, .runsRead, .runsCreate, .targetsRead,
    .targetsWrite, .checksRead, .checksWrite, .schedulesWrite, .mtrRead, .annotationsRead,
    .annotationsWrite, .incidentsRead, .maintenanceRead, .incidentsWrite, .maintenanceWrite,
    .alertsRead, .alertsManage]

def alertEditor : List Permission :=
  [.topologyRead, .matrixRead, .eventsRead, .promQLQuery, .runsRead, .runsCreate, .mtrRead,
    .annotationsRead, .incidentsRead, .maintenanceRead, .alertsRead, .alertsManage]

def builtinRoles : List (String × List Permission) :=
  [("viewer", viewer), ("operator", operator), ("alert-editor", alertEditor),
    ("admin", allPermissions)]

def isBuiltinRole (name : String) : Bool := (builtinRoles.lookup name).isSome

/-- Role name to permissions. -/
abbrev Policy := GoMap String (List Permission)

def newPolicy (custom : GoMap String (List Permission)) : Policy :=
  let builtin := builtinRoles.foldl (fun m r => AList.insert r.1 r.2 m) ∅
  custom.entries.foldl (fun m e => if isBuiltinRole e.1 then m else AList.insert e.1 e.2 m) builtin

def Policy.can (policy : Policy) (roles : List String) (perm : Permission) : Bool :=
  roles.any fun role =>
    match AList.lookup role policy with
    | some perms => perms.contains perm
    | none => false

theorem lookup_foldl_custom (l : List (Sigma fun _ : String => List Permission))
    (distinct : l.NodupKeys) (m : Policy) (name : String) :
    (l.foldl (fun m e => if isBuiltinRole e.1 then m else AList.insert e.1 e.2 m) m).lookup name =
      if isBuiltinRole name then m.lookup name else (l.dlookup name).or (m.lookup name) := by
  induction l generalizing m with
  | nil => simp
  | cons e l ih =>
    obtain ⟨custom, perms⟩ := e
    rw [List.foldl_cons, ih (List.nodupKeys_of_nodupKeys_cons distinct)]
    by_cases same : custom = name
    · subst same
      have fresh : l.dlookup custom = none :=
        List.dlookup_eq_none.mpr (List.notMem_keys_of_nodupKeys_cons distinct)
      by_cases builtin : isBuiltinRole custom = true <;> simp [builtin, fresh]
    · by_cases builtin : isBuiltinRole custom = true <;>
        simp [builtin, Ne.symm same]

/-- A built-in role is what it is compiled to be; any other name is a row or nothing. -/
theorem lookup_newPolicy (custom : GoMap String (List Permission)) (name : String) :
    (newPolicy custom).lookup name =
      if isBuiltinRole name then builtinRoles.lookup name else custom.lookup name := by
  have stored : custom.entries.dlookup name = custom.lookup name := rfl
  have compiled : ∀ name, (builtinRoles.foldl (fun m r => AList.insert r.1 r.2 m)
      (∅ : Policy)).lookup name = builtinRoles.lookup name := by
    intro name
    rw [GoMap.lookup_foldl_pairs builtinRoles (by decide)]
    simp
  rw [newPolicy, lookup_foldl_custom custom.entries custom.nodupKeys, stored, compiled]
  by_cases builtin : isBuiltinRole name = true
  · simp [builtin]
  · have unknown : builtinRoles.lookup name = none := Option.not_isSome_iff_eq_none.mp builtin
    simp [builtin, unknown]

end Kconmon.Console.Authz
