import Mathlib.Data.List.Basic

/-!
# Loops that may fail

Rules for `foldlM` over a computation that returns or fails: an invariant of
every completed iteration is an invariant of a completed loop, and a loop whose
iterations all complete under the invariant completes.
-/
namespace Kconmon.Lib

variable {α β ε : Type*}

variable {xs : List α} {f : β → α → Except ε β}

theorem foldlM_cons_ok {x : α} {b out : β} (done : (x :: xs).foldlM f b = .ok out) :
    ∃ b', f b x = .ok b' ∧ xs.foldlM f b' = .ok out := by
  rw [List.foldlM_cons] at done
  cases first : f b x with
  | error e => simp [first, bind, Except.bind] at done
  | ok b' => exact ⟨b', rfl, by rwa [first] at done⟩

theorem foldlM_invariant {I : β → Prop} {b out : β} (init : I b)
    (keep : ∀ b, ∀ x ∈ xs, ∀ b', I b → f b x = .ok b' → I b') (done : xs.foldlM f b = .ok out) :
    I out := by
  induction xs generalizing b with
  | nil =>
    obtain rfl : b = out := by simpa [pure, Except.pure] using done
    exact init
  | cons x xs ih =>
    obtain ⟨b', first, rest⟩ := foldlM_cons_ok done
    exact ih (keep b x (by simp) b' init first)
      (fun b y hy => keep b y (List.mem_cons_of_mem _ hy)) rest

theorem foldlM_completes (step : ∀ b, ∀ x ∈ xs, ∃ b', f b x = .ok b') (b : β) :
    ∃ out, xs.foldlM f b = .ok out := by
  induction xs generalizing b with
  | nil => exact ⟨b, rfl⟩
  | cons x xs ih =>
    obtain ⟨b', first⟩ := step b x (by simp)
    obtain ⟨out, rest⟩ := ih (fun b y hy => step b y (List.mem_cons_of_mem _ hy)) b'
    exact ⟨out, by rw [List.foldlM_cons, first]; exact rest⟩

/-- A loop that skips some elements is the loop over the others. -/
theorem foldlM_skip {γ : Type*} (skip : α → Prop) [DecidablePred skip] (g : α → γ)
    (f : β → γ → Except ε β) (l : List α) (b : β) :
    l.foldlM (fun b x => if skip x then .ok b else f b (g x)) b =
      ((l.filter fun x => ¬ skip x).map g).foldlM f b := by
  induction l generalizing b with
  | nil => rfl
  | cons x l ih =>
    by_cases passed : skip x
    · simp only [List.foldlM_cons, passed, ↓reduceIte, not_true_eq_false, decide_false,
        Bool.false_eq_true, not_false_eq_true, List.filter_cons_of_neg]
      exact ih b
    · simp only [List.foldlM_cons, passed, ↓reduceIte, not_false_eq_true, decide_true,
        List.filter_cons_of_pos, List.map_cons]
      exact congrArg _ (funext ih)

/-- Each iteration moves up in the preorder `R` and establishes the goal of its
element. Goals are stable upwards, so the loop establishes all of them. -/
theorem foldlM_establishes {R : β → β → Prop} {Q : α → β → Prop} (refl : ∀ b, R b b)
    (trans : ∀ {a b c}, R a b → R b c → R a c) (stable : ∀ x {b b'}, R b b' → Q x b → Q x b')
    (step : ∀ b, ∀ x ∈ xs, ∃ b', f b x = .ok b' ∧ R b b' ∧ Q x b') (b : β) :
    ∃ out, xs.foldlM f b = .ok out ∧ R b out ∧ ∀ x ∈ xs, Q x out := by
  induction xs generalizing b with
  | nil => exact ⟨b, rfl, refl b, by simp⟩
  | cons x xs ih =>
    obtain ⟨b', first, up, goal⟩ := step b x (by simp)
    obtain ⟨out, rest, up', goals⟩ := ih (fun b y hy => step b y (List.mem_cons_of_mem _ hy)) b'
    refine ⟨out, by rw [List.foldlM_cons, first]; exact rest, trans up up', ?_⟩
    intro y hy
    rcases List.mem_cons.mp hy with rfl | hy
    · exact stable y up' goal
    · exact goals y hy

/-- An invariant of each iteration is an invariant of the loop; the iteration may
use that its element is one the loop visits. -/
theorem foldl_invariant {f : β → α → β} {I : β → Prop} {b : β} (init : I b)
    (keep : ∀ b, ∀ x ∈ xs, I b → I (f b x)) : I (xs.foldl f b) := by
  induction xs generalizing b with
  | nil => exact init
  | cons x xs ih =>
    exact ih (keep b x (by simp) init) fun b y hy => keep b y (List.mem_cons_of_mem _ hy)

/-- Each iteration establishes the goal of its element and keeps the goals reached so far. -/
theorem foldl_establishes {f : β → α → β} {Q : α → β → Prop} (goal : ∀ b, ∀ x ∈ xs, Q x (f b x))
    (stable : ∀ b x y, Q y b → Q y (f b x)) (b : β) : ∀ x ∈ xs, Q x (xs.foldl f b) := by
  induction xs generalizing b with
  | nil => simp
  | cons x xs ih =>
    intro y hy
    rcases List.mem_cons.mp hy with rfl | hy
    · rw [List.foldl_cons]
      exact foldl_invariant (I := Q y) (goal b y (by simp)) fun b x _ => stable b x y
    · exact ih (fun b y hy => goal b y (List.mem_cons_of_mem _ hy)) (f b x) y hy

/-- A loop over distinct keys, each iteration of which changes only what is seen at its own key. -/
theorem foldl_keyed {υ : Type*} [DecidableEq α] {f : β → α → β} {view : β → α → υ} {g : α → υ → υ}
    (own : ∀ b k, view (f b k) k = g k (view b k))
    (other : ∀ b k k', k' ≠ k → view (f b k) k' = view b k') {keys : List α} (distinct : keys.Nodup)
    (b : β) (k : α) : view (keys.foldl f b) k = if k ∈ keys then g k (view b k) else view b k := by
  induction keys generalizing b with
  | nil => simp
  | cons k' keys ih =>
    obtain ⟨fresh, distinct⟩ := List.nodup_cons.mp distinct
    rw [List.foldl_cons, ih distinct]
    by_cases same : k = k'
    · subst same
      simp [fresh, own]
    · simp [same, other b k' k same]

/-- A loop each iteration of which changes only what is seen at the key of its element. -/
theorem foldl_by_key {κ υ : Type*} [DecidableEq κ] {key : α → κ} {f : β → α → β}
    (view : β → κ → υ) {g : υ → α → υ} (own : ∀ b x, view (f b x) (key x) = g (view b (key x)) x)
    (other : ∀ b x k, k ≠ key x → view (f b x) k = view b k) (l : List α) (b : β) (k : κ) :
    view (l.foldl f b) k = (l.filter (key · = k)).foldl g (view b k) := by
  induction l generalizing b with
  | nil => rfl
  | cons x l ih =>
    rw [List.foldl_cons, ih]
    by_cases same : key x = k
    · subst same
      rw [List.filter_cons_of_pos (by simp), List.foldl_cons, own]
    · rw [List.filter_cons_of_neg (by simpa using same), other b x k (Ne.symm same)]

end Kconmon.Lib
