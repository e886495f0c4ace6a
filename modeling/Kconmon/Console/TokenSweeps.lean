import Kconmon.Console.Tokens
import Kconmon.Lib.Loops

/-!
# No token outlives its user

The invariant behind the sweeps. Under the condition every token is owned by the
user at the start of its chain, and a live token of a user who was disabled or
deleted since has a sweep ahead or a row that is shut. Once no request is in
progress no such token authenticates (`dead_of_orderly`). Without the condition an
insert that comes after the last sweep leaves one that does.
-/
namespace Kconmon.Console.Tokens
open Lib

/-! ## What covers a user's tokens -/

namespace State

def SweepAhead (st : State) (user : Id) : Prop := ∃ q r, st.requests.lookup q = some r ∧
    r.willSweep (st.users.lookup user).isSome user = true

def Shut (st : State) (user : Id) : Prop :=
  st.users.lookup user = some true ∧ ∀ q, st.requests.lookup q ≠ some (.enable user)

def Covered (st : State) (user : Id) : Prop := st.SweepAhead user ∨ st.Shut user

theorem sweepAhead_iff {st : State} {user : Id} : st.sweepAhead user = true ↔ st.SweepAhead user :=
    by
  simp only [sweepAhead, SweepAhead, List.any_eq_true]
  constructor
  · rintro ⟨e, entry, sweeps⟩
    exact ⟨e.1, e.2, AList.mem_lookup_iff.mpr entry, sweeps⟩
  · rintro ⟨q, r, held, sweeps⟩
    exact ⟨⟨q, r⟩, AList.mem_lookup_iff.mp held, sweeps⟩

theorem shut_iff {st : State} {user : Id} : st.shut user = true ↔ st.Shut user := by
  simp only [shut, Shut, Bool.and_eq_true, decide_eq_true_eq, Bool.not_eq_true', List.any_eq_false]
  refine and_congr_right fun _ => ⟨?_, ?_⟩
  · intro none_enables q held
    exact none_enables _ (AList.mem_lookup_iff.mp held) rfl
  · rintro none_enables ⟨q, r⟩ entry rfl
    exact none_enables q (AList.mem_lookup_iff.mpr entry)

end State

def Request.user : Request → Id
  | .disable u | .sweepDisabled u | .sweepEnabling u | .enable u | .sweepDeleting u | .delete u
  | .sweepDeleted u => u

variable {user : Id} {r : Request}

theorem Request.willSweep_of_ne (differ : r.user ≠ user) (present : Bool) :
    r.willSweep present user = false := by
  cases r <;> simp_all [Request.willSweep, Request.user]

variable {st st' : State}

/-- One request moves and leaves the user covered as it was, unless it was the one to sweep
or now is one to enable. -/
theorem State.Covered.frame (h : st.Covered user) (q : Nat)
    (row : st'.users.lookup user = st.users.lookup user)
    (others : ∀ p, p ≠ q → st'.requests.lookup p = st.requests.lookup p)
    (idle : ∀ r, st.requests.lookup q = some r →
      r.willSweep (st.users.lookup user).isSome user = false)
    (calm : st'.requests.lookup q ≠ some (.enable user)) : st'.Covered user := by
  rcases h with ⟨p, r, held, sweeps⟩ | ⟨disabled, none_enables⟩
  · refine .inl ⟨p, r, ?_, by rwa [row]⟩
    by_cases same : p = q
    · subst same
      simp [idle r held] at sweeps
    · rwa [others p same]
  · refine .inr ⟨row.trans disabled, fun p => ?_⟩
    by_cases same : p = q
    · rwa [same]
    · rw [others p same]
      exact none_enables p

/-! ## The invariant -/

/-- A token of a user who was disabled or deleted since its mint was authenticated. -/
def Stale (st : State) (t : Token) : Prop := t.ended < st.ended t.root

instance (st : State) (t : Token) : Decidable (Stale st t) :=
  inferInstanceAs (Decidable (t.ended < st.ended t.root))

/-- Where a mint in flight comes from. -/
def Mint.Rooted (st : State) (mint : Mint) : Prop :=
  match mint.subject with
  | .user user => mint.root = user
  | .token parent => parent < st.next ∧ ∀ t, st.tokens.lookup parent = some t → t.root = mint.root

structure Inv (st : State) : Prop where
  owner : ∀ id t, st.tokens.lookup id = some t → t.owner = t.root
  drawn : ∀ id t, st.tokens.lookup id = some t → id < st.next
  rooted : ∀ m mint, st.mints.lookup m = some mint → mint.Rooted st
  covered : ∀ id t, st.tokens.lookup id = some t → tokenIsSpent t = false → Stale st t →
    st.Covered t.root

/-- Tokens only went away or were spent. -/
def Spends (tokens tokens' : GoMap Id Token) : Prop :=
  ∀ id t', tokens'.lookup id = some t' → ∃ t, tokens.lookup id = some t ∧
    t'.owner = t.owner ∧ t'.root = t.root ∧ t'.ended = t.ended ∧
    (tokenIsSpent t' = false → tokenIsSpent t = false)

/-- Tokens going away or being spent needs no more than the cover of those that are left. -/
theorem Inv.spends (inv : Inv st) (tokens : Spends st.tokens st'.tokens)
    (mints : st'.mints = st.mints) (next : st'.next = st.next)
    (covered : ∀ id t, st'.tokens.lookup id = some t → tokenIsSpent t = false → Stale st' t →
      st'.Covered t.root) : Inv st' := by
  refine ⟨fun id t' held => ?_, fun id t' held => ?_, fun m mint held => ?_, covered⟩
  · obtain ⟨t, old, owner, root, -⟩ := tokens id t' held
    rw [owner, root, inv.owner id t old]
  · obtain ⟨t, old, -⟩ := tokens id t' held
    rw [next]
    exact inv.drawn id t old
  · have rooted := inv.rooted m mint (mints ▸ held)
    unfold Mint.Rooted at rooted ⊢
    cases subject : mint.subject with
    | user user => simpa [subject] using rooted
    | token parent =>
      simp only [subject] at rooted
      refine ⟨next ▸ rooted.1, fun t' held' => ?_⟩
      obtain ⟨t, old, -, root, -⟩ := tokens parent t' held'
      rw [root]
      exact rooted.2 t old

variable {tokens : GoMap Id Token}

/-- The users, the requests and the history stay: the cover does. -/
theorem Inv.spends_tokens (inv : Inv st) (spends : Spends st.tokens tokens) :
    Inv { st with tokens } := by
  refine inv.spends spends rfl rfl fun id t' held live stale => ?_
  obtain ⟨t, old, -, root, ended, lived⟩ := spends id t' held
  have stale' : Stale st t := by
    unfold Stale at stale ⊢
    rwa [← ended, ← root]
  rw [root]
  exact inv.covered id t old (lived live) stale'

/-! ## Sweeps -/

variable {owned : List Id} {id : Id}

theorem mem_ownedPass (h : id ∈ owned) : id ∈ ownedPass tokens owned := by
  refine foldl_invariant (I := fun owned => id ∈ owned) h fun owned e _ mem => ?_
  unfold ownedStep
  split
  · exact List.mem_cons_of_mem _ mem
  · exact mem

theorem mem_ownedClosure {fuel : Nat} (h : id ∈ owned) : id ∈ ownedClosure tokens fuel owned := by
  induction fuel generalizing owned with
  | zero => exact h
  | succ fuel ih =>
    unfold ownedClosure
    dsimp only
    split
    · exact ih (mem_ownedPass h)
    · exact h

theorem lookup_revokeOwnedTokens {t' : Token}
    (held : (revokeOwnedTokens tokens user).lookup id = some t') :
    ∃ t, tokens.lookup id = some t ∧ t'.owner = t.owner ∧ t'.root = t.root ∧ t'.ended = t.ended ∧
      (tokenIsSpent t' = false → tokenIsSpent t = false) ∧
      (t.owner = user → tokenIsSpent t' = true) := by
  rw [revokeOwnedTokens, GoMap.lookup_mapValues] at held
  obtain ⟨t, old, rfl⟩ := Option.map_eq_some_iff.mp held
  refine ⟨t, old, ?_⟩
  split
  · rename_i caught
    exact ⟨rfl, rfl, rfl, by simp [tokenIsSpent], by simp [tokenIsSpent]⟩
  · rename_i missed
    refine ⟨rfl, rfl, rfl, fun h => h, fun owned => ?_⟩
    by_contra live
    exact missed ⟨owned ▸ mem_ownedClosure List.mem_cons_self, live⟩

theorem spends_sweep (st : State) (user : Id) : Spends st.tokens (st.sweep user).tokens := by
  intro id t' held
  obtain ⟨t, old, owner, root, ended, live, -⟩ := lookup_revokeOwnedTokens held
  exact ⟨t, old, owner, root, ended, live⟩

variable {t : Token}

/-- A sweep leaves the user nothing that authenticates. -/
theorem Inv.swept (inv : Inv st) (held : (st.sweep user).tokens.lookup id = some t)
    (of_user : t.root = user) : tokenIsSpent t = true := by
  obtain ⟨t₀, old, owner, root, -, -, spent⟩ := lookup_revokeOwnedTokens held
  refine spent ?_
  rw [inv.owner id t₀ old, ← root, of_user]

/-! ## The closure of a sweep -/

/-- A chain of owners from a token back to the user, over rows that are still there. -/
inductive Chain (tokens : GoMap Id Token) (user : Id) : Id → Prop where
  | direct {id : Id} {t : Token} : tokens.lookup id = some t → t.owner = user → Chain tokens user id
  | minted {id : Id} {t : Token} :
    tokens.lookup id = some t → Chain tokens user t.owner → Chain tokens user id

/-- Ids of a user's chain: the user, and tokens owned by something owned. -/
def Closed (tokens : GoMap Id Token) (owned : List Id) : Prop :=
  ∀ id t, tokens.lookup id = some t → t.owner ∈ owned → id ∈ owned

/-- Distinct ids, all of them the user's or a token's whose chain leads to the user. -/
structure Within (tokens : GoMap Id Token) (user : Id) (owned : List Id) : Prop where
  distinct : owned.Nodup
  known : ∀ id ∈ owned, id = user ∨ Chain tokens user id

section
variable (within : Within tokens user owned)
include within

theorem Within.chain (row : tokens.lookup id = some t)
    (owner : t.owner ∈ owned) : Chain tokens user id := by
  rcases within.known _ owner with direct | minted
  · exact .direct row direct
  · exact .minted row minted

theorem Within.pass : Within tokens user (ownedPass tokens owned) := by
  refine foldl_invariant (I := Within tokens user) within fun owned e entry within => ?_
  unfold ownedStep
  split
  · rename_i fresh
    refine ⟨List.nodup_cons.mpr ⟨fresh.2, within.distinct⟩, fun id mem => ?_⟩
    rcases List.mem_cons.mp mem with rfl | mem
    · exact .inr (within.chain (AList.mem_lookup_iff.mpr entry) fresh.1)
    · exact within.known id mem
  · exact within

theorem Within.length_le : owned.length ≤ tokens.entries.length + 1 := by
  have sub : owned ⊆ user :: tokens.keys := by
    intro id mem
    rcases within.known id mem with rfl | ⟨row, _⟩ | ⟨row, _⟩
    · exact List.mem_cons_self
    all_goals exact List.mem_cons_of_mem _ (List.mem_map_of_mem (AList.mem_lookup_iff.mp row))
  have := (List.subperm_of_subset within.distinct sub).length_le
  simpa [AList.keys, List.keys] using this

end

/-- A pass only puts ids in front. -/
theorem suffix_foldl_ownedStep (l : List (Sigma fun _ : Id => Token)) (owned : List Id) :
    owned <:+ l.foldl ownedStep owned := by
  refine foldl_invariant (I := (owned <:+ ·)) List.suffix_rfl fun o e _ h => ?_
  unfold ownedStep
  split
  · exact h.trans (List.suffix_cons _ _)
  · exact h

/-- A pass that adds nothing found everything owned already. -/
theorem closed_of_pass (still : (ownedPass tokens owned).length ≤ owned.length) :
    Closed tokens owned := by
  intro id t held owner
  obtain ⟨l, l', entries⟩ := List.append_of_mem (AList.mem_lookup_iff.mp held)
  rw [ownedPass, entries, List.foldl_append] at still
  -- The loop comes to this entry with the ids it began with.
  have rest := (suffix_foldl_ownedStep (⟨id, t⟩ :: l') (l.foldl ownedStep owned)).length_le
  have same := (suffix_foldl_ownedStep l owned).eq_of_length_le (Nat.le_trans rest still)
  rw [← same, List.foldl_cons] at still
  by_contra absent
  have grown := (suffix_foldl_ownedStep l' (id :: owned)).length_le
  rw [ownedStep, if_pos ⟨owner, absent⟩] at still
  exact absurd (Nat.le_trans grown still) (by simp)

theorem Within.closure (within : Within tokens user owned) (fuel : Nat)
    (enough : tokens.entries.length + 1 < owned.length + fuel) :
    Within tokens user (ownedClosure tokens fuel owned) ∧
      Closed tokens (ownedClosure tokens fuel owned) := by
  induction fuel generalizing owned with
  | zero =>
    have := within.length_le
    omega
  | succ fuel ih =>
    unfold ownedClosure
    dsimp only
    split
    · exact ih within.pass (by omega)
    · exact ⟨within, closed_of_pass (by omega)⟩

/-- A sweep revokes the tokens whose chain of owners leads to the user, also where a token's owner
is the token that minted it, and leaves every other token as it is. -/
theorem revokeOwnedTokens_exact (tokens : GoMap Id Token) (user id : Id) :
    (Chain tokens user id → (revokeOwnedTokens tokens user).lookup id =
      (tokens.lookup id).map fun t => if tokenIsSpent t then t else { t with revoked := true }) ∧
    (¬ Chain tokens user id → (revokeOwnedTokens tokens user).lookup id = tokens.lookup id) := by
  have start : Within tokens user [user] := ⟨by simp, by simp⟩
  obtain ⟨within, closed⟩ := start.closure (tokens.entries.length + 1) (by simp)
  rw [revokeOwnedTokens, GoMap.lookup_mapValues]
  set owned := ownedClosure tokens (tokens.entries.length + 1) [user]
  have reached {id : Id} (chain : Chain tokens user id) :
      ∃ t, tokens.lookup id = some t ∧ t.owner ∈ owned := by
    induction chain with
    | direct row owner => exact ⟨_, row, owner ▸ mem_ownedClosure List.mem_cons_self⟩
    | minted row _ ih =>
      obtain ⟨parent, above, owner⟩ := ih
      exact ⟨_, row, closed _ parent above owner⟩
  constructor
  · intro chain
    obtain ⟨t, row, owner⟩ := reached chain
    cases spent : tokenIsSpent t <;> simp [row, owner, spent]
  · intro other
    cases row : tokens.lookup id with
    | none => rfl
    | some t =>
      have unowned : t.owner ∉ owned := fun owner => other (within.chain row owner)
      simp [unowned]

/-! ## Requests on users -/

variable {q : Nat}

/-- A request moves on and touches its own user only; what it owes is that user's cover. -/
theorem Inv.moves (inv : Inv st) (held : st.requests.lookup q = some r)
    (tokens : Spends st.tokens st'.tokens) (mints : st'.mints = st.mints)
    (next : st'.next = st.next) (others : ∀ p, p ≠ q → st'.requests.lookup p = st.requests.lookup p)
    (rows : ∀ v, v ≠ r.user → st'.users.lookup v = st.users.lookup v)
    (ends : ∀ v, v ≠ r.user → st'.ended v = st.ended v)
    (calm : ∀ v, v ≠ r.user → st'.requests.lookup q ≠ some (.enable v))
    (own : ∀ id t, st'.tokens.lookup id = some t → t.root = r.user → tokenIsSpent t = false →
      Stale st' t → st'.Covered r.user) : Inv st' := by
  refine inv.spends tokens mints next fun id t' held' live stale => ?_
  by_cases same : t'.root = r.user
  · rw [same]
    exact own id t' held' same live stale
  · obtain ⟨t, old, -, root, ended, lived⟩ := tokens id t' held'
    have stale' : Stale st t := by
      unfold Stale at stale ⊢
      rwa [← ended, ← root, ← ends _ same]
    have before := inv.covered id t old (lived live) stale'
    rw [← root] at before
    refine before.frame q (rows _ same) others (fun r' held'' => ?_) (calm _ same)
    cases held.symm.trans held''
    exact Request.willSweep_of_ne (Ne.symm same) _

theorem spends_refl (tokens : GoMap Id Token) : Spends tokens tokens :=
  fun _ t held => ⟨t, held, rfl, rfl, rfl, fun h => h⟩

theorem lookup_become_ne {p : Nat} (differ : p ≠ q) (r : Request) :
    (st.become q r).requests.lookup p = st.requests.lookup p := by
  simp [State.become, differ]

theorem lookup_finish_ne {p : Nat} (differ : p ≠ q) :
    (st.finish q).requests.lookup p = st.requests.lookup p := by
  simp [State.finish, differ]

/-- A request that ends without a sweep of its own to come leaves the cover of its user. -/
theorem State.Covered.finish (h : st.Covered user) (held : st.requests.lookup q = some r)
    (idle : r.willSweep (st.users.lookup user).isSome user = false) :
    (st.finish q).Covered user := by
  refine h.frame q rfl (fun p differ => lookup_finish_ne differ) (fun r' held' => ?_)
    (by simp [State.finish])
  cases held.symm.trans held'
  exact idle

section
variable (inv : Inv st)
include inv

section
variable (held : st.requests.lookup q = some r)
include held

/-- The end of a request that found no row. -/
theorem Inv.finish
    (idle : ∀ user, r.willSweep false user = false) (missing : r.user ∉ st.users) :
    Inv (st.finish q) := by
  have no_row : (st.users.lookup r.user).isSome = false := by
    rw [AList.lookup_eq_none.mpr missing]
    rfl
  refine inv.moves held (spends_refl _) rfl rfl (fun p differ => lookup_finish_ne differ)
    (fun _ _ => rfl) (fun _ _ => rfl) (by simp [State.finish]) fun id t held' same live stale => ?_
  have before := inv.covered id t held' live stale
  rw [same] at before
  exact before.finish held (by rw [no_row]; exact idle _)

/-- A sweep that is the last step of its request, or leads to a write. -/
theorem Inv.sweep
    (tokens : st'.tokens = (st.sweep r.user).tokens) (users : st'.users = st.users)
    (mints : st'.mints = st.mints) (next : st'.next = st.next) (ends : st'.ends = st.ends)
    (others : ∀ p, p ≠ q → st'.requests.lookup p = st.requests.lookup p)
    (calm : ∀ v, v ≠ r.user → st'.requests.lookup q ≠ some (.enable v)) : Inv st' := by
  refine inv.moves held (tokens ▸ spends_sweep st r.user) mints next others (fun _ _ =>
    by rw [users])
    (fun _ _ => by simp only [State.ended, ends]) calm fun id t held' same live _ => ?_
  have spent := inv.swept (tokens ▸ held') same
  rw [live] at spent
  cases spent

/-- A row update or delete whose sweep comes next. -/
theorem Inv.writes {r' : Request}
    (tokens : st'.tokens = st.tokens) (mints : st'.mints = st.mints) (next : st'.next = st.next)
    (requests : st'.requests = AList.insert q r' st.requests)
    (rows : ∀ v, v ≠ r.user → st'.users.lookup v = st.users.lookup v)
    (ends : st'.ends = r.user :: st.ends) (sweeps : ∀ present, r'.willSweep present r.user = true) :
    Inv st' := by
  have at_q : st'.requests.lookup q = some r' := by rw [requests, AList.lookup_insert]
  refine inv.moves held (tokens ▸ spends_refl _) mints next (fun p differ => ?_) rows
    (fun v differ => ?_) (fun v _ => ?_) fun id t held' same live _ => .inl ⟨q, r', at_q, sweeps _⟩
  · rw [requests, AList.lookup_insert_ne differ]
  · simp [State.ended, ends, List.count_cons_of_ne (Ne.symm differ)]
  · rw [at_q]
    intro enables
    cases enables
    exact absurd (sweeps true) (by simp [Request.willSweep])

end

theorem Inv.enable (held : st.requests.lookup q = some (.enable user))
    (present : user ∈ st.users) :
    Inv { st.finish q with users := AList.insert user false st.users } := by
  refine inv.moves held (spends_refl _) rfl rfl (fun p differ => lookup_finish_ne differ)
    (fun v differ => AList.lookup_insert_ne differ) (fun _ _ => rfl) (by simp [State.finish])
    fun id t held' same live stale => ?_
  have before := inv.covered id t held' live stale
  rw [same] at before
  rcases before with ⟨p, r, held'', sweeps⟩ | ⟨-, none_enables⟩
  · refine .inl ⟨p, r, ?_, ?_⟩
    · by_cases at_q : p = q
      · subst at_q
        cases held.symm.trans held''
        simp [Request.willSweep] at sweeps
      · exact (lookup_finish_ne at_q).trans held''
    · have known : (st.users.lookup user).isSome = true := by rwa [AList.lookup_isSome]
      simp only [Request.user] at sweeps ⊢
      rw [known] at sweeps
      simpa using sweeps
  · exact absurd held (none_enables q)

theorem Inv.advance (held : st.requests.lookup q = some r) : Inv (st.advance q r) := by
  cases r with
  | disable user =>
    simp only [State.advance]
    split
    · exact inv.writes held rfl rfl rfl rfl (fun v differ => AList.lookup_insert_ne differ) rfl
        (by simp [Request.willSweep, Request.user])
    · exact inv.finish held (by simp [Request.willSweep]) ‹_›
  | sweepDisabled user =>
    exact inv.sweep held rfl rfl rfl rfl rfl (fun p differ => lookup_finish_ne differ)
      (by simp [State.advance, State.finish])
  | sweepEnabling user =>
    exact inv.sweep held rfl rfl rfl rfl rfl (fun p differ => lookup_become_ne differ _)
      (by simp [State.advance, State.become, Request.user, eq_comm])
  | enable user =>
    simp only [State.advance]
    split
    · exact inv.enable held ‹_›
    · exact inv.finish held (by simp [Request.willSweep]) ‹_›
  | sweepDeleting user =>
    exact inv.sweep held rfl rfl rfl rfl rfl (fun p differ => lookup_become_ne differ _)
      (by simp [State.advance, State.become])
  | delete user =>
    simp only [State.advance]
    split
    · exact inv.writes held rfl rfl rfl rfl (fun v differ => AList.lookup_erase_ne differ) rfl
        (by simp [Request.willSweep, Request.user])
    · exact inv.finish held (by simp [Request.willSweep]) ‹_›
  | sweepDeleted user =>
    exact inv.sweep held rfl rfl rfl rfl rfl (fun p differ => lookup_finish_ne differ)
      (by simp [State.advance, State.finish])

/-- A request that begins neither sweeps nor opens a row that is shut. -/
theorem Inv.begin (free : q ∉ st.requests)
    (calm : ∀ user, r = .enable user → st.users.lookup user = some false) :
    Inv (st.become q r) := by
  have none_yet : st.requests.lookup q = none := AList.lookup_eq_none.mpr free
  have at_q : (st.become q r).requests.lookup q = some r := AList.lookup_insert _
  refine inv.spends (spends_refl _) rfl rfl fun id t held live stale => ?_
  rcases inv.covered id t held live stale with ⟨p, r', held', sweeps⟩ | ⟨disabled, none_enables⟩
  · refine .inl ⟨p, r', ?_, sweeps⟩
    rw [lookup_become_ne (by rintro rfl; simp [none_yet] at held')]
    exact held'
  · refine .inr ⟨disabled, fun p => ?_⟩
    by_cases same : p = q
    · rw [same, at_q]
      intro enables
      have enabled := calm _ (Option.some.inj enables)
      rw [disabled] at enabled
      cases enabled
    · rw [lookup_become_ne same]
      exact none_enables p

end

/-! ## Mints and token writes -/

theorem Inv.authenticate (inv : Inv st) {m : Nat} {subject : Subject}
    (passed : Tokens.authenticate st subject = true) (ended : Nat) :
    Inv { st with mints := AList.insert m ⟨subject, rootOf st subject, ended⟩ st.mints } := by
  refine ⟨inv.owner, inv.drawn, fun m' mint held => ?_, inv.covered⟩
  rw [GoMap.lookup_insert_if] at held
  split at held
  · cases held
    cases subject with
    | user user => rfl
    | token parent =>
      simp only [Tokens.authenticate, authenticateToken] at passed
      split at passed
      · cases passed
      · rename_i t row
        refine ⟨inv.drawn parent t row, fun t' row' => ?_⟩
        cases row.symm.trans row'
        simp [rootOf, row]
  · exact inv.rooted m' mint held

/-- A mint whose parent is still there inherits the user at the start of its chain. -/
theorem Inv.ownerFor (inv : Inv st) {mint : Mint} (rooted : mint.Rooted st)
    (parent : ∀ p, mint.subject = .token p → (st.tokens.lookup p).isSome = true) :
    Tokens.ownerFor st mint.subject = mint.root := by
  unfold Mint.Rooted at rooted
  cases subject : mint.subject with
  | user user =>
    simp only [subject] at rooted
    exact rooted.symm
  | token p =>
    simp only [subject] at rooted
    obtain ⟨t, row⟩ := Option.isSome_iff_exists.mp (parent p subject)
    simp [Tokens.ownerFor, resolveInheritedOwner, row, inv.owner p t row, rooted.2 t row]

theorem Inv.insert (inv : Inv st) {m : Nat} {mint : Mint} (held : st.mints.lookup m = some mint)
    (tidy : orderly st (.insert m) = true) :
    Inv { st with
      tokens := AList.insert st.next
        { owner := Tokens.ownerFor st mint.subject, root := mint.root, ended :=
          mint.ended } st.tokens
      mints := st.mints.erase m
      next := st.next + 1 } := by
  simp only [orderly, held, Bool.and_eq_true, Bool.or_eq_true, decide_eq_true_eq,
    State.sweepAhead_iff, State.shut_iff] at tidy
  obtain ⟨parent, safe⟩ := tidy
  have owner :=
    inv.ownerFor (inv.rooted m mint held) fun p subject => by simpa [subject] using parent
  refine ⟨fun id t row => ?_, fun id t row => ?_, fun m' mint' held' => ?_,
    fun id t row live stale => ?_⟩
  · rw [GoMap.lookup_insert_if] at row
    split at row
    · cases row
      exact owner
    · exact inv.owner id t row
  · rw [GoMap.lookup_insert_if] at row
    split at row
    · rename_i same
      exact same ▸ Nat.lt_succ_self _
    · exact Nat.lt_succ_of_lt (inv.drawn id t row)
  · rw [GoMap.lookup_erase_if] at held'
    split at held'
    · cases held'
    · have rooted := inv.rooted m' mint' held'
      unfold Mint.Rooted at rooted ⊢
      cases subject : mint'.subject with
      | user user => simpa [subject] using rooted
      | token p =>
        simp only [subject] at rooted
        refine ⟨Nat.lt_succ_of_lt rooted.1, fun t row => rooted.2 t ?_⟩
        rwa [GoMap.lookup_insert_if, if_neg (Nat.ne_of_lt rooted.1)] at row
  · rw [GoMap.lookup_insert_if] at row
    split at row
    · cases row
      rcases safe with (fresh | ahead) | shut
      · exact absurd stale (Nat.not_lt.mpr fresh)
      · exact .inl ahead
      · exact .inr shut
    · exact inv.covered id t row live stale

theorem spends_insert {t' : Token} (held : tokens.lookup id = some t) (owner : t'.owner = t.owner)
    (root : t'.root = t.root) (ended : t'.ended = t.ended) (spent : tokenIsSpent t' = true) :
    Spends tokens (AList.insert id t' tokens) := by
  intro id' t'' row
  rw [GoMap.lookup_insert_if] at row
  split at row
  · rename_i same
    cases row
    exact ⟨t, same ▸ held, owner, root, ended, fun live => absurd spent (by simp [live])⟩
  · exact ⟨t'', row, rfl, rfl, rfl, fun h => h⟩

theorem spends_erase (tokens : GoMap Id Token) (id : Id) : Spends tokens (tokens.erase id) := by
  intro id' t row
  rw [GoMap.lookup_erase_if] at row
  split at row
  · cases row
  · exact ⟨t, row, rfl, rfl, rfl, fun h => h⟩

theorem Inv.step {a : Action} (inv : Inv st) (tidy : orderly st a = true)
    (taken : step st a = some st') : Inv st' := by
  cases a with
  | authenticate m subject =>
    simp only [Tokens.step] at taken
    split at taken <;> cases taken
    rename_i passed
    exact inv.authenticate (by simpa using not_or.mp passed |>.2) _
  | insert m =>
    obtain ⟨mint, held, rfl⟩ := Option.map_eq_some_iff.mp taken
    exact inv.insert held tidy
  | revoke id =>
    obtain ⟨t, held, done⟩ := Option.bind_eq_some_iff.mp taken
    split at done <;> cases done
    exact inv.spends_tokens (spends_insert held rfl rfl rfl (by simp [tokenIsSpent]))
  | purge id =>
    obtain ⟨t, held, done⟩ := Option.bind_eq_some_iff.mp taken
    split at done <;> cases done
    exact inv.spends_tokens (spends_erase _ _)
  | expire id =>
    obtain ⟨t, held, rfl⟩ := Option.map_eq_some_iff.mp taken
    exact inv.spends_tokens (spends_insert held rfl rfl rfl (by simp [tokenIsSpent]))
  | beginDisable q user =>
    simp only [Tokens.step] at taken
    split at taken <;> cases taken
    rename_i free
    exact inv.begin (not_or.mp free).1 (by simp)
  | beginEnable q user =>
    simp only [Tokens.step] at taken
    split at taken
    · cases taken
    · rename_i free
      obtain ⟨disabled, row, rfl⟩ := Option.map_eq_some_iff.mp taken
      refine inv.begin free fun user' enables => ?_
      cases disabled with
      | true => simp at enables
      | false =>
        obtain rfl : user = user' := by simpa using enables
        exact row
  | beginDelete q user =>
    simp only [Tokens.step] at taken
    split at taken <;> cases taken
    rename_i free
    exact inv.begin (not_or.mp free).1 (by simp)
  | advance q =>
    obtain ⟨r, held, rfl⟩ := Option.map_eq_some_iff.mp taken
    exact inv.advance held

theorem inv_initial (users : GoMap Id Bool) (next : Id) : Inv (initial users next) := by
  refine ⟨?_, ?_, ?_, ?_⟩ <;> simp [initial]

/-! ## Runs -/

/-- No request is in progress. -/
def State.Quiet (st : State) : Prop :=
  (∀ m, st.mints.lookup m = none) ∧ ∀ q, st.requests.lookup q = none

/-- Every token whose user was disabled or deleted since its mint was authenticated is dead. -/
def State.Dead (st : State) : Prop :=
  ∀ id t, st.tokens.lookup id = some t → Stale st t → authenticateToken st id = false

theorem Inv.dead (inv : Inv st) (quiet : st.Quiet) : st.Dead := by
  intro id t held stale
  cases spent : tokenIsSpent t with
  | true => simp [authenticateToken, held, spent]
  | false =>
    rcases inv.covered id t held spent stale with ⟨q, r, request, -⟩ | ⟨disabled, -⟩
    · rw [quiet.2 q] at request
      cases request
    · rw [← inv.owner id t held] at disabled
      simp [authenticateToken, held, checkOwnerDisabled, disabled]

/-- In every run whose inserts come in time no token outlives its user. -/
theorem dead_of_orderly (users : GoMap Id Bool) (next : Id) {st : State}
    (run : Reaches step (fun st a => orderly st a = true) (initial users next) st)
    (quiet : st.Quiet) : st.Dead := by
  have inv : Inv st := run.invariant (inv_initial users next) fun _ _ _ inv tidy taken =>
    inv.step tidy taken
  exact inv.dead quiet

theorem State.quiet_of_entries (mints : st.mints.entries = [])
    (requests : st.requests.entries = []) : st.Quiet :=
  ⟨GoMap.lookup_of_entries_nil mints, GoMap.lookup_of_entries_nil requests⟩

/-- One enabled user. -/
def oneUser : State := initial (AList.insert 0 false ∅) 1

/-- A token and one minted with it, inserted between the two sweeps of the user's delete. -/
def chainInTime : List Action :=
  [.authenticate 0 (.user 0), .insert 0, .authenticate 1 (.token 1), .beginDelete 0 0, .advance 0,
    .insert 1, .advance 0, .advance 0]

theorem dead_of_orderly_chainInTime :
    ∃ st, Reaches step (fun st a => orderly st a = true) oneUser st ∧ st.Quiet ∧ st.Dead ∧
      st.tokens.lookup 2 =
        some { owner := 0, revoked := true, expired := false, root := 0, ended := 0 } := by
  let st := (exec (guarded step fun st a => orderly st a = true) oneUser chainInTime).get
    (by decide)
  have run : Reaches step (fun st a => orderly st a = true) oneUser st :=
    Reaches.of_exec (Option.some_get _).symm
  have quiet : st.Quiet := State.quiet_of_entries (by decide) (by decide)
  exact ⟨st, run, quiet, dead_of_orderly _ _ run quiet, by decide⟩

/-- The mint was authenticated before the delete and is inserted after its last sweep. -/
def lateInsert : List Action :=
  [.authenticate 0 (.user 0), .beginDelete 0 0, .advance 0, .advance 0, .advance 0, .insert 0]

/-- The parent is revoked and purged while its mint is in flight, so the new token's owner is
an id that no sweep reaches. -/
def purgedParent : List Action :=
  [.authenticate 0 (.user 0), .insert 0, .authenticate 1 (.token 1), .revoke 1, .purge 1, .insert 1,
    .beginDisable 0 0, .advance 0, .advance 0]

theorem mints_in_flight_not_dead :
    (∃ st, exec step oneUser lateInsert = some st ∧ st.Quiet ∧ ¬ st.Dead) ∧
      ∃ st, exec step oneUser purgedParent = some st ∧ st.Quiet ∧ ¬ st.Dead := by
  constructor
  · let st := (exec step oneUser lateInsert).get (by decide)
    have quiet : st.Quiet := State.quiet_of_entries (by decide) (by decide)
    refine ⟨st, (Option.some_get _).symm, quiet, fun dead => ?_⟩
    have row : st.tokens.lookup 1 = some { owner := 0, root := 0, ended := 0 } := by decide
    exact absurd (dead 1 _ row (by decide)) (by decide)
  · let st := (exec step oneUser purgedParent).get (by decide)
    have quiet : st.Quiet := State.quiet_of_entries (by decide) (by decide)
    refine ⟨st, (Option.some_get _).symm, quiet, fun dead => ?_⟩
    have row : st.tokens.lookup 2 = some { owner := 1, root := 0, ended := 0 } := by decide
    exact absurd (dead 2 _ row (by decide)) (by decide)

end Kconmon.Console.Tokens
