import Kconmon.Console.LastAdmin

/-!
# Bindings name roles that exist

The bindings table has no foreign key to the roles. What keeps a binding from naming a
role that is gone is that each write checks, under the lock they all share, the table it
does not write: a role is deleted only if no binding names it, and a binding is written
only if its role is known.
-/
namespace Kconmon.Console.Rbac
open Lib Authz

/-- A built-in role or a row. -/
def Store.Known (s : Store) (role : String) : Prop :=
  isBuiltinRole role = true ∨ (s.roles.lookup role).isSome = true

/-- No binding dangles. -/
def Store.Resolved (s : Store) : Prop := ∀ b ∈ s.bindings, s.Known b.roleName

/-- What a committed write does to references: a binding it leaves is an old one or names a known
role, and it removes no role that a binding it leaves names. -/
structure Refers (s s' : Store) : Prop where
  bindings : ∀ b ∈ s'.bindings, b ∈ s.bindings ∨ s'.Known b.roleName
  roles : ∀ b ∈ s'.bindings, s.Known b.roleName → s'.Known b.roleName

theorem Refers.resolved {s s' : Store} (refers : Refers s s') (resolved : s.Resolved) :
    s'.Resolved := by
  intro b listed
  rcases refers.bindings b listed with old | known
  · exact refers.roles b listed (resolved b old)
  · exact known

variable {role : String}

theorem known_of_requireKnownRole {s : Store} (passed : requireKnownRole s role = .ok ()) :
    s.Known role := by
  unfold requireKnownRole at passed
  split at passed
  · rename_i builtin
    exact .inl builtin
  · split at passed
    · rename_i row
      exact .inr row
    · cases passed

section
variable {cfg : Config} {s s' : Store}

/-- Bindings are taken away, roles stay. -/
theorem refers_of_sublist (roles : s'.roles = s.roles)
    (bindings : ∀ b ∈ s'.bindings, b ∈ s.bindings) : Refers s s' := by
  refine ⟨fun b listed => .inl (bindings b listed), fun b _ known => ?_⟩
  rwa [Store.Known, roles]

/-- A row for a known role, whatever bindings were taken away before. -/
theorem refers_createBindingRow {t : Store} {subjectID : String} {kind : SubjectKind}
    (done : createBindingRow t role kind subjectID = .ok s') (known : s.Known role)
    (roles : t.roles = s.roles) (bindings : ∀ b ∈ t.bindings, b ∈ s.bindings) : Refers s s' := by
  obtain rfl := createBindingRow_ok done
  have same {name : String} (known : s.Known name) :
      (insertBinding t role kind subjectID).Known name := by
    rwa [Store.Known, insertBinding, roles]
  refine ⟨fun b listed => ?_, fun b _ => same⟩
  rcases List.mem_append.mp listed with old | new
  · exact .inl (bindings b old)
  · rw [List.mem_singleton.mp new]
    exact .inr (same known)

variable {id : String}

theorem refers_createUser {username : String} (done : createUser s id username role = .ok s') :
    Refers s s' := by
  unfold createUser at done
  split at done
  · cases done
  · rename_i passed
    split at done
    · cases done
    · exact refers_createBindingRow done (known_of_requireKnownRole passed) rfl fun _ listed =>
        listed

/-- The guard of a patch looks at the new role again. -/
theorem known_of_patchGuard {u : User} {disabled : Option Bool}
    (passed : patchGuard cfg s id u disabled (some role) = .ok ()) : s.Known role := by
  unfold patchGuard at passed
  simp only [reduceCtorEq, and_false, if_false, Option.elim_some] at passed
  split at passed
  · cases passed
  · rename_i known
    exact known_of_requireKnownRole known

theorem refers_patchUser {disabled : Option Bool} {role : Option String}
    (done : patchUser cfg s id disabled role = .ok s') : Refers s s' := by
  unfold patchUser at done
  split at done
  · cases done
  · split at done
    · cases done
    · split at done
      · cases done
      · rename_i passed
        dsimp only at done
        split at done
        · unfold setUserRole at done
          exact refers_createBindingRow done (known_of_patchGuard passed) rfl
            fun b listed => List.mem_of_mem_filter listed
        · cases done
          exact refers_of_sublist rfl fun _ listed => listed

theorem refers_deleteUser (done : deleteUser cfg s id = .ok s') : Refers s s' := by
  unfold deleteUser at done
  split at done
  · cases done
  · split at done <;> cases done
    exact refers_of_sublist rfl fun b listed => List.mem_of_mem_filter listed

variable {name : String}

theorem refers_upsertRoleGuarded {perms : List Permission}
    (done : upsertRoleGuarded cfg s name perms = .ok s') : Refers s s' := by
  unfold upsertRoleGuarded at done
  dsimp only at done
  split at done <;> cases done
  refine ⟨fun b listed => .inl listed, fun b _ known => known.imp_right fun row => ?_⟩
  rw [GoMap.lookup_insert_if]
  split
  · rfl
  · exact row

theorem refers_createRole {permissions : List String}
    (done : createRole cfg s name permissions = .ok s') : Refers s s' := by
  unfold createRole at done
  iterate 3
    split at done
    next => cases done
  split at done
  · cases done
  · exact refers_upsertRoleGuarded done

theorem refers_importRole {stored : Option (List Permission)} {permissions : List String}
    (done : importRole cfg s stored name permissions = .ok s') : Refers s s' := by
  unfold importRole at done
  iterate 2
    split at done
    next => cases done
  split at done
  · cases done
  · split at done
    · cases done
    · exact refers_upsertRoleGuarded done

/-- A role that is deleted has no binding. -/
theorem refers_deleteRole (done : deleteRole cfg s name = .ok s') : Refers s s' := by
  unfold deleteRole at done
  split at done
  · cases done
  · split at done
    · cases done
    · rename_i unused
      split at done
      · cases done
      · split at done <;> cases done
        refine ⟨fun b listed => .inl listed, fun b listed known => known.imp_right fun row => ?_⟩
        have other : b.roleName ≠ name := by
          rintro rfl
          exact unused (List.any_eq_true.mpr ⟨b, listed, by simp⟩)
        rw [GoMap.lookup_erase_if, if_neg other]
        exact row

theorem refers_createBinding {roleName subjectKind subjectID : String}
    (done : createBinding cfg s roleName subjectKind subjectID = .ok s') : Refers s s' := by
  unfold createBinding at done
  iterate 4
    split at done
    next => cases done
  split at done
  next => cases done
  next kind _ =>
    split at done
    next => cases done
    next known =>
      split at done
      next => cases done
      next =>
        exact refers_createBindingRow done (known_of_requireKnownRole known) rfl
          fun _ listed => listed

theorem refers_deleteBinding {id : Nat} (done : deleteBinding cfg s id = .ok s') : Refers s s' := by
  unfold deleteBinding at done
  split at done
  · split at done <;> cases done
    exact refers_of_sublist rfl fun b listed => List.mem_of_mem_filter listed
  · cases done

theorem refers_step {w : Write} (taken : s.step cfg w = some s') : Refers s s' := by
  have done := apply_of_step taken
  cases w with
  | createUser id username role => exact refers_createUser done
  | patchUser id disabled role => exact refers_patchUser done
  | deleteUser id => exact refers_deleteUser done
  | createRole name permissions => exact refers_createRole done
  | importRole stored name permissions => exact refers_importRole done
  | deleteRole name => exact refers_deleteRole done
  | createBinding roleName kind subjectID => exact refers_createBinding done
  | deleteBinding id => exact refers_deleteBinding done

end

/-- Whatever writes are committed, in whatever order: if every binding names a built-in role or a
row at the start, every binding does in every store reached. -/
theorem bindings_resolved (cfg : Config) (s t : Store)
    (start : ∀ b ∈ s.bindings, isBuiltinRole b.roleName = true ∨
      (s.roles.lookup b.roleName).isSome = true)
    (run : Reaches (Store.step cfg) (fun _ _ => True) s t) :
    ∀ b ∈ t.bindings, isBuiltinRole b.roleName = true ∨
      (t.roles.lookup b.roleName).isSome = true := by
  have resolved : t.Resolved := run.invariant (I := Store.Resolved) start
    fun _ _ _ resolved _ taken => (refers_step taken).resolved resolved
  exact resolved

/-- A custom role is bound by each of the three writes that can, and given up by two of them. -/
def bindAndRelease : List Write :=
  [.createRole "keeper" ["users:manage"], .createUser "u2" "second" "keeper",
    .createBinding "keeper" "group" "staff", .patchUser "u1" none (some "keeper"),
    .deleteBinding 3, .patchUser "u1" none (some "viewer")]

theorem bindings_resolved_bindAndRelease :
    ∃ t, Reaches (Store.step {}) (fun _ _ => True) oneAdmin t ∧
      (∃ b ∈ t.bindings, b.roleName = "keeper") ∧
      (∀ b ∈ t.bindings, isBuiltinRole b.roleName = true ∨
        (t.roles.lookup b.roleName).isSome = true) ∧ t.step {} (.deleteRole "keeper") = none := by
  let t := (exec (guarded (Store.step {}) fun _ _ => True) oneAdmin bindAndRelease).get
    (by decide)
  have run : Reaches (Store.step {}) (fun _ _ => True) oneAdmin t :=
    Reaches.of_exec (Option.some_get _).symm
  have refused : (t.step {} (.deleteRole "keeper")).isNone = true := by decide
  exact ⟨t, run, by decide, bindings_resolved {} oneAdmin t (by decide) run,
    Option.isNone_iff_eq_none.mp refused⟩

end Kconmon.Console.Rbac
