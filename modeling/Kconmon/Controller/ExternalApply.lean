import Kconmon.Controller.External
import Kconmon.Lib.Loops

/-!
# What one PUT records and collects

After the locked step every agent either was pushed its recorded assignment or
has the record it had before. No agent stays marked: the marked ones are pushed
even when their record did not change.
-/
namespace Kconmon.Controller.External
open Lib ExternalCheckManager

namespace ExternalCheckManager

theorem assignment_store (m : ExternalCheckManager) (a b : String) (specs : Specs) :
    (m.store a specs).assignment b = if b = a then specs else m.assignment b := by
  unfold assignment store
  rw [GoMap.lookup_insert_if]
  split <;> rfl

theorem assignment_forget (m : ExternalCheckManager) (a b : String) :
    (m.forget a).assignment b = if b = a then [] else m.assignment b := by
  unfold assignment forget
  rw [GoMap.lookup_erase_if]
  split <;> rfl

@[simp] theorem mem_resync_store (m : ExternalCheckManager) (a b : String) (specs : Specs) :
    b ∈ (m.store a specs).resync ↔ b ∈ m.resync ∧ b ≠ a := by simp [store]

@[simp] theorem mem_resync_forget (m : ExternalCheckManager) (a b : String) :
    b ∈ (m.forget a).resync ↔ b ∈ m.resync ∧ b ≠ a := by simp [forget]

@[simp] theorem mem_resync_clearMark (m : ExternalCheckManager) (a b : String) :
    b ∈ (m.clearMark a).resync ↔ b ∈ m.resync ∧ b ≠ a := by simp [clearMark]

@[simp] theorem mem_resync_mark (m : ExternalCheckManager) (a b : String) :
    b ∈ (m.mark a).resync ↔ b = a ∨ b ∈ m.resync := by simp [mark]

theorem assignment_of_not_mem {m : ExternalCheckManager} {a : String} (h : a ∉ m.assignments.keys) :
    m.assignment a = [] := by
  have missing : m.assignments.lookup a = none := AList.lookup_eq_none.mpr h
  rw [assignment, missing, Option.getD_none]

end ExternalCheckManager

/-- Every agent was pushed its record, or has the record and the mark it had in `m`. -/
def Tracks (m : ExternalCheckManager) (acc : ExternalCheckManager × List Push) : Prop :=
  ∀ a, (∃ p ∈ acc.2, p.agentID = a ∧ p.specs = acc.1.assignment a) ∨
    (acc.1.assignment a = m.assignment a ∧ (a ∈ m.resync → a ∈ acc.1.resync))

/-- Writing one agent and pushing what was written keeps track of all. -/
theorem Tracks.push {m m₁ m₂ : ExternalCheckManager} {pushes : List Push}
    (h : Tracks m (m₁, pushes))
    {p : Push} (others : ∀ b, b ≠ p.agentID → m₂.assignment b = m₁.assignment b ∧
      (b ∈ m₁.resync → b ∈ m₂.resync)) (own : p.specs = m₂.assignment p.agentID) :
    Tracks m (m₂, pushes ++ [p]) := by
  intro a
  by_cases same : a = p.agentID
  · exact .inl ⟨p, by simp, same.symm, same ▸ own⟩
  · obtain ⟨record, marks⟩ := others a same
    rcases h a with ⟨q, hq, ha, hs⟩ | ⟨kept, marked⟩
    · exact .inl ⟨q, List.mem_append_left _ hq, ha, hs.trans record.symm⟩
    · exact .inr ⟨record.trans kept, fun hm => marks (marked hm)⟩

section
variable {chans : String → List Nat} {desired : GoMap String Specs} {unknown : List String}
  {m : ExternalCheckManager} {acc : ExternalCheckManager × List Push}

theorem Tracks.install (h : Tracks m acc) (e : Sigma fun _ : String => Specs) :
    Tracks m (External.install chans unknown acc e) := by
  unfold External.install
  dsimp only
  split_ifs
  · exact h
  · exact h
  · exact h
  · refine h.push (fun b other => ?_) ?_
    · exact ⟨by rw [assignment_store, if_neg other], fun hb =>
        by simp [hb, other]⟩
    · rw [assignment_store, if_pos rfl]

theorem Tracks.withdraw (h : Tracks m acc) (a : String) :
    Tracks m (External.withdraw chans desired acc a) := by
  unfold External.withdraw
  dsimp only
  split_ifs
  · exact h
  · refine h.push (fun b other => ?_) ?_
    · exact ⟨by rw [assignment_forget, if_neg other], fun hb =>
        by simp [hb, other]⟩
    · rw [assignment_forget, if_pos rfl]

theorem Tracks.retryRemoval (h : Tracks m acc) {a : String} (empty : acc.1.assignment a = []) :
    Tracks m (External.retryRemoval chans acc a) := by
  refine h.push (fun b other => ?_) ?_
  · exact ⟨rfl, fun hb => by simp [hb, other]⟩
  · exact empty.symm

/-- After the first loop a marked agent with a wanted assignment has no record. -/
theorem install_marked (l : List (Sigma fun _ : String => Specs))
    (acc : ExternalCheckManager × List Push) :
    ∀ e ∈ l, e.2 ≠ [] → e.1 ∈ (l.foldl (install chans unknown) acc).1.resync →
      (l.foldl (install chans unknown) acc).1.assignment e.1 = [] := by
  refine foldl_establishes (Q := fun (e : Sigma fun _ : String => Specs)
    (acc : ExternalCheckManager × List Push) => e.2 ≠ [] → e.1 ∈ acc.1.resync →
    acc.1.assignment e.1 = []) ?_ ?_ acc
  · intro acc e _ wanted marked
    unfold install at marked ⊢
    dsimp only at marked ⊢
    split_ifs at marked ⊢ with h₁ h₂ h₃
    · exact absurd h₁ wanted
    · exact h₂.2
    · exact absurd marked h₃.1
    · simp at marked
  · intro acc e e' kept wanted marked
    unfold install at marked ⊢
    dsimp only at marked ⊢
    split_ifs at marked ⊢
    · exact kept wanted marked
    · exact kept wanted marked
    · exact kept wanted marked
    · obtain ⟨old, other⟩ := (mem_resync_store _ _ _ _).mp marked
      rw [assignment_store, if_neg other]
      exact kept wanted old

theorem withdraw_cases (acc : ExternalCheckManager × List Push) (a : String) :
    (withdraw chans desired acc a).1 = acc.1 ∧ (desired.lookup a).getD [] ≠ [] ∨
      (withdraw chans desired acc a).1 = acc.1.forget a := by
  unfold withdraw
  dsimp only
  split_ifs with wanted
  · exact .inl ⟨rfl, wanted⟩
  · exact .inr rfl

/-- After the second loop only wanted assignments are recorded. -/
theorem withdraw_wanted (l : List String) (acc : ExternalCheckManager × List Push) :
    ∀ a ∈ l, (desired.lookup a).getD [] ≠ [] ∨
      (l.foldl (withdraw chans desired) acc).1.assignment a = [] := by
  refine foldl_establishes (Q := fun a acc => (desired.lookup a).getD [] ≠ [] ∨
    acc.1.assignment a = []) ?_ ?_ acc
  · intro acc a _
    rcases withdraw_cases acc a with ⟨-, wanted⟩ | gone
    · exact .inl wanted
    · exact .inr (by rw [gone, assignment_forget, if_pos rfl])
  · intro acc b a kept
    refine kept.imp_right fun empty => ?_
    rcases withdraw_cases acc b with ⟨same, -⟩ | gone
    · rw [same, empty]
    · rw [gone, assignment_forget, empty, ite_self]

/-- The second loop records and marks nothing new. -/
theorem withdraw_shrinks (l : List String) (acc : ExternalCheckManager × List Push) (a : String) :
    (acc.1.assignment a = [] → (l.foldl (withdraw chans desired) acc).1.assignment a = []) ∧
      (a ∈ (l.foldl (withdraw chans desired) acc).1.resync → a ∈ acc.1.resync) := by
  refine foldl_invariant (I := fun acc' : ExternalCheckManager × List Push =>
    (acc.1.assignment a = [] → acc'.1.assignment a = []) ∧
    (a ∈ acc'.1.resync → a ∈ acc.1.resync)) ⟨id, id⟩ ?_
  rintro acc' b - ⟨empty, marked⟩
  rcases withdraw_cases acc' b with ⟨same, -⟩ | gone
  · rw [same]
    exact ⟨empty, marked⟩
  · rw [gone]
    refine ⟨fun h => ?_, fun h => marked ((mem_resync_forget _ _ _).mp h).1⟩
    rw [assignment_forget, empty h, ite_self]

/-- Before the third loop a marked agent has no record, so what it is pushed is its record. -/
theorem marked_empty (ord : RangeOrder) (m : ExternalCheckManager) (a : String) :
    let acc := (ord.visit 0 desired.entries).foldl (install chans unknown) (m, [])
    let acc' := (ord.visit 1 acc.1.assignments.keys).foldl (withdraw chans desired) acc
    a ∈ acc'.1.resync → acc'.1.assignment a = [] := by
  intro acc acc' marked
  obtain ⟨empty, old⟩ : (acc.1.assignment a = [] → acc'.1.assignment a = []) ∧
      (a ∈ acc'.1.resync → a ∈ acc.1.resync) := withdraw_shrinks _ acc a
  by_cases recorded : a ∈ acc.1.assignments.keys
  · have swept : (desired.lookup a).getD [] ≠ [] ∨ acc'.1.assignment a = [] :=
      withdraw_wanted _ acc a ((ord.mem_visit 1).mpr recorded)
    rcases swept with wanted | gone
    · -- wanted and still marked: the first loop found no record and an unknown agent
      refine empty ?_
      cases found : desired.lookup a with
      | none => simp [found] at wanted
      | some specs =>
        have entry : (⟨a, specs⟩ : Sigma fun _ : String => Specs) ∈ ord.visit 0 desired.entries :=
          (ord.mem_visit 0).mpr (AList.mem_lookup_iff.mp found)
        exact install_marked _ _ _ entry (by simpa [found] using wanted) (old marked)
    · exact gone
  · exact empty (assignment_of_not_mem recorded)

theorem tracks_applyLocked (ord : RangeOrder) (m : ExternalCheckManager) :
    Tracks m (applyLocked chans desired unknown ord m) := by
  unfold applyLocked
  dsimp only
  set acc := (ord.visit 0 desired.entries).foldl (install chans unknown) (m, [])
  set acc' := (ord.visit 1 acc.1.assignments.keys).foldl (withdraw chans desired) acc with hacc'
  have start : Tracks m (m, []) := fun a => .inr ⟨rfl, id⟩
  have first : Tracks m acc := foldl_invariant start fun b e _ h => h.install e
  have second : Tracks m acc' := foldl_invariant first fun b a _ h => h.withdraw a
  -- the third loop changes no record, so its agents stay without one
  have third : Tracks m ((ord.visit 2 acc'.1.resync).foldl (retryRemoval chans) acc') ∧
      ∀ a, a ∈ acc'.1.resync →
        ((ord.visit 2 acc'.1.resync).foldl (retryRemoval chans) acc').1.assignment a = [] := by
    refine foldl_invariant (I := fun b => Tracks m b ∧
      ∀ a, a ∈ acc'.1.resync → b.1.assignment a = []) ⟨second, fun a => marked_empty ord m a⟩ ?_
    rintro b a ha ⟨tracks, empty⟩
    exact ⟨tracks.retryRemoval (empty a ((ord.mem_visit 2).mp ha)), empty⟩
  exact third.1

theorem resync_applyLocked (ord : RangeOrder) (m : ExternalCheckManager) (a : String) :
    a ∉ (applyLocked chans desired unknown ord m).1.resync := by
  unfold applyLocked
  dsimp only
  set acc := (ord.visit 1 _).foldl (withdraw chans desired) _
  intro marked
  have old : a ∈ acc.1.resync := by
    refine foldl_invariant (I := fun b : ExternalCheckManager × List Push =>
      a ∈ b.1.resync → a ∈ acc.1.resync) id ?_ marked
    intro b c _ kept h
    exact kept ((mem_resync_clearMark _ _ _).mp h).1
  refine foldl_establishes (Q :=
    fun a b => a ∉ b.1.resync) ?_ ?_ acc a ((ord.mem_visit 2).mpr old) marked
  · intro b c _ h
    exact ((mem_resync_clearMark _ _ _).mp h).2 rfl
  · intro b c d absent h
    exact absent ((mem_resync_clearMark _ _ _).mp h).1

/-- A collected push starts at its first channel, with every stream open at the locked step. -/
def Push.Fresh (chans : String → List Nat) (p : Push) : Prop :=
  p.chans = chans p.agentID ∧ p.next = 0 ∧ p.queued = false

theorem fresh_applyLocked (ord : RangeOrder) (m : ExternalCheckManager) :
    ∀ p ∈ (applyLocked chans desired unknown ord m).2, p.Fresh chans := by
  have add : ∀ (pushes : List Push) (p : Push), (∀ q ∈ pushes, q.Fresh chans) → p.Fresh chans →
      ∀ q ∈ pushes ++ [p], q.Fresh chans := by
    intro pushes p old new q hq
    rcases List.mem_append.mp hq with h | h
    · exact old q h
    · exact List.mem_singleton.mp h ▸ new
  unfold applyLocked
  dsimp only
  refine foldl_invariant (I := fun acc : ExternalCheckManager × List Push =>
    ∀ p ∈ acc.2, p.Fresh chans) (foldl_invariant (I := fun acc : ExternalCheckManager × List Push =>
    ∀ p ∈ acc.2, p.Fresh chans) (foldl_invariant (I := fun acc : ExternalCheckManager × List Push =>
    ∀ p ∈ acc.2, p.Fresh chans) (by simp) ?_) ?_) ?_
  · intro acc e _ h
    unfold install
    dsimp only
    split_ifs
    · exact h
    · exact h
    · exact h
    · exact add _ _ h ⟨rfl, rfl, rfl⟩
  · intro acc a _ h
    unfold withdraw
    dsimp only
    split_ifs
    · exact h
    · exact add _ _ h ⟨rfl, rfl, rfl⟩
  · intro acc a _ h
    exact add _ _ h ⟨rfl, rfl, rfl⟩

end

/-- A marked agent is pushed by whatever PUT comes next, an identical one included. -/
theorem resync_pushes (chans : String → List Nat) (desired : GoMap String Specs)
    (unknown : List String) (ord : RangeOrder) {m : ExternalCheckManager} {a : String}
    (marked : a ∈ m.resync) : ∃ p ∈ (applyLocked chans desired unknown ord m).2, p.agentID = a ∧
      p.specs = (applyLocked chans desired unknown ord m).1.assignment a := by
  have tracks : Tracks m (applyLocked chans desired unknown ord m) := tracks_applyLocked ord m
  rcases tracks a with pushed | ⟨-, kept⟩
  · exact pushed
  · exact absurd (kept marked) (resync_applyLocked ord m a)

end Kconmon.Controller.External
