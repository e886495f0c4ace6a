import Mathlib.Data.List.Sort
import Mathlib.Tactic.Linarith

/-!
# A dispatcher that blocks on the head of its queue

Jobs are started in a fixed order. A job first takes one of `cap` slots and then
one of the `gate` slots of its key, and it keeps both until it is done. While it
waits, nothing behind it starts.

Longer jobs never make anything finish earlier (`run_mono`), so the worst case
of jobs of at most `T` is the one where each takes exactly `T`. There the order
is cut into consecutive windows, each closed by the first job that does not fit
(`pack`), and window `w` ends at `(w + 1) * T`.
-/
namespace Kconmon.Lib.HeadOfLine

/-- The first instant from `clock` on at which fewer than `cap` of the releases are ahead:
the `cap`-th latest of them, if that is not past. -/
def freeAt (cap clock : Nat) (releases : List Nat) : Nat :=
  max clock ((releases.insertionSort (· ≥ ·)).getD (cap - 1) 0)

theorem getD_le_iff_countP_lt {l : List Nat} (sorted : l.Pairwise (· ≥ ·)) {cap : Nat}
    (pos : 0 < cap) (t : Nat) : l.getD (cap - 1) 0 ≤ t ↔ l.countP (t < ·) < cap := by
  induction l generalizing cap with
  | nil => simp [pos]
  | cons a l ih =>
    obtain ⟨le_head, sorted⟩ := List.pairwise_cons.mp sorted
    have none_ahead : a ≤ t → l.countP (t < ·) = 0 := by
      intro past
      rw [List.countP_eq_zero]
      intro b hb ahead
      have := le_head b hb
      simp only [decide_eq_true_eq] at ahead
      omega
    have head : (a :: l).countP (t < ·) = l.countP (t < ·) + if t < a then 1 else 0 := by
      rw [List.countP_cons]
      simp
    obtain _ | _ | c := cap
    · omega
    · simp only [Nat.reduceAdd, Nat.sub_self, List.getD_cons_zero, head]
      split <;> omega
    · have rest : l.getD c 0 ≤ t ↔ l.countP (t < ·) < c + 1 := ih sorted (Nat.succ_pos c)
      simp only [Nat.add_sub_cancel, List.getD_cons_succ, head]
      split <;> omega

theorem freeAt_le_iff {cap : Nat} (pos : 0 < cap) (clock : Nat) (releases : List Nat) (t : Nat) :
    freeAt cap clock releases ≤ t ↔ clock ≤ t ∧ releases.countP (t < ·) < cap := by
  unfold freeAt
  rw [Nat.max_le, getD_le_iff_countP_lt (List.pairwise_insertionSort _ _) pos,
    (List.perm_insertionSort _ _).countP_eq]

theorem freeAt_eq {cap clock v : Nat} {releases : List Nat} (pos : 0 < cap) (later : clock ≤ v)
    (free : releases.countP (v < ·) < cap)
    (busy : ∀ t, clock ≤ t → t < v → cap ≤ releases.countP (t < ·)) :
    freeAt cap clock releases = v := by
  refine Nat.le_antisymm ((freeAt_le_iff pos clock releases v).mpr ⟨later, free⟩) ?_
  by_contra early
  obtain ⟨from_clock, fewer⟩ := (freeAt_le_iff pos clock releases _).mp le_rfl
  exact absurd (busy _ from_clock (by omega)) (by omega)

theorem freeAt_of_released {cap clock : Nat} {releases : List Nat} (pos : 0 < cap)
    (past : ∀ r ∈ releases, r ≤ clock) : freeAt cap clock releases = clock := by
  refine freeAt_eq pos le_rfl ?_ (by omega)
  rw [List.countP_eq_zero.mpr (fun r hr => by simpa using past r hr)]
  exact pos

/-- Slots whose holders all leave at one instant `r`. -/
theorem freeAt_batch {cap clock r n : Nat} {old : List Nat} (pos : 0 < cap)
    (past : ∀ x ∈ old, x ≤ clock) (ahead : clock < r) :
    freeAt cap clock (old ++ List.replicate n r) = if n < cap then clock else r := by
  have none_old : ∀ t, clock ≤ t → old.countP (t < ·) = 0 := by
    intro t ht
    rw [List.countP_eq_zero]
    intro x hx
    have := past x hx
    simp only [decide_eq_true_eq]
    omega
  have batch : ∀ t, clock ≤ t →
      (old ++ List.replicate n r).countP (t < ·) = if t < r then n else 0 := by
    intro t ht
    rw [List.countP_append, none_old t ht, List.countP_replicate]
    simp
  split
  · refine freeAt_eq pos le_rfl ?_ (by omega)
    rw [batch clock le_rfl]
    split <;> omega
  · refine freeAt_eq pos ahead.le ?_ ?_
    · rw [batch r ahead.le]
      simpa using pos
    · intro t from_clock before
      rw [batch t from_clock, if_pos before]
      omega

theorem countP_ahead_mono {rs rs' : List Nat} (later : List.Forall₂ (· ≤ ·) rs rs') (t : Nat) :
    rs.countP (t < ·) ≤ rs'.countP (t < ·) := by
  induction later with
  | nil => simp
  | cons head _ ih =>
    simp only [List.countP_cons, decide_eq_true_eq]
    split <;> split <;> omega

theorem freeAt_mono {cap clock clock' : Nat} {rs rs' : List Nat} (pos : 0 < cap)
    (clocks : clock ≤ clock') (later : List.Forall₂ (· ≤ ·) rs rs') :
    freeAt cap clock rs ≤ freeAt cap clock' rs' := by
  obtain ⟨from_clock, fewer⟩ := (freeAt_le_iff pos clock' rs' _).mp le_rfl
  have := countP_ahead_mono later (freeAt cap clock' rs')
  exact (freeAt_le_iff pos clock rs _).mpr ⟨by omega, by omega⟩

/-! ## Dispatching -/

variable {κ : Type*}

/-- The dispatcher's clock, and every job it started with the instant it leaves its slots. -/
structure Slots (κ : Type*) where
  clock : Nat := 0
  taken : List (κ × Nat) := []
  deriving DecidableEq

/-- The same jobs, the second time no shorter. -/
abbrev Slower : List (κ × Nat) → List (κ × Nat) → Prop :=
  List.Forall₂ fun a b => a.1 = b.1 ∧ a.2 ≤ b.2

variable {jobs : List (κ × Nat)}

theorem slower_uniform {T : Nat} (short : ∀ job ∈ jobs, job.2 ≤ T) :
    Slower jobs ((jobs.map Prod.fst).map (·, T)) := by
  induction jobs with
  | nil => simp
  | cons job jobs ih =>
    exact .cons ⟨rfl, short job (by simp)⟩ (ih fun j hj => short j (List.mem_cons_of_mem _ hj))

variable {xs ys : List (κ × Nat)}

theorem exists_slower (slower : Slower xs ys) {x : κ × Nat} (hx : x ∈ xs) :
    ∃ y ∈ ys, x.2 ≤ y.2 := by
  induction slower with
  | nil => cases hx
  | cons head _ ih =>
    rcases List.mem_cons.mp hx with rfl | hx
    · exact ⟨_, List.mem_cons_self, head.2⟩
    · obtain ⟨y, hy, later⟩ := ih hx
      exact ⟨y, List.mem_cons_of_mem _ hy, later⟩

theorem slower_releases (slower : Slower xs ys) :
    List.Forall₂ (· ≤ ·) (xs.map Prod.snd) (ys.map Prod.snd) := by
  induction slower with
  | nil => simp
  | cons head _ ih => exact .cons head.2 ih

variable [DecidableEq κ]

/-- Start a job, given by its key and the time it takes. -/
def Slots.start (cap gate : Nat) (s : Slots κ) (job : κ × Nat) : Slots κ :=
  let window := freeAt cap s.clock (s.taken.map Prod.snd)
  let slot := freeAt gate window ((s.taken.filter (·.1 = job.1)).map Prod.snd)
  { clock := slot, taken := s.taken ++ [(job.1, slot + job.2)] }

def run (cap gate : Nat) (jobs : List (κ × Nat)) : Slots κ := jobs.foldl (Slots.start cap gate) {}

theorem length_taken_foldl (cap gate : Nat) (jobs : List (κ × Nat)) (s : Slots κ) :
    (jobs.foldl (Slots.start cap gate) s).taken.length = s.taken.length + jobs.length := by
  induction jobs generalizing s with
  | nil => simp
  | cons job jobs ih =>
    rw [List.foldl_cons, ih]
    simp only [Slots.start, List.length_append, List.length_cons, List.length_nil]
    omega

/-- Every job is started. -/
theorem length_taken_run (cap gate : Nat) (jobs : List (κ × Nat)) :
    (run cap gate jobs).taken.length = jobs.length :=
  (length_taken_foldl cap gate jobs {}).trans (Nat.zero_add _)

theorem slower_filter (slower : Slower xs ys) (key : κ) :
    Slower (xs.filter (·.1 = key)) (ys.filter (·.1 = key)) := by
  induction slower with
  | nil => simp
  | cons head _ ih =>
    obtain ⟨same, later⟩ := head
    simp only [List.filter_cons, same]
    split
    · exact .cons ⟨same, later⟩ ih
    · exact ih

section
variable {cap gate : Nat} (pos_cap : 0 < cap) (pos_gate : 0 < gate)
include pos_cap pos_gate

/-- A slower past and a longer job make a slower future. -/
theorem start_mono {s s' : Slots κ} {job job' : κ × Nat} (clocks : s.clock ≤ s'.clock)
    (past : Slower s.taken s'.taken) (same : job.1 = job'.1) (longer : job.2 ≤ job'.2) :
    (s.start cap gate job).clock ≤ (s'.start cap gate job').clock ∧
      Slower (s.start cap gate job).taken (s'.start cap gate job').taken := by
  have window := freeAt_mono pos_cap clocks (slower_releases past)
  have slot := freeAt_mono pos_gate window (slower_releases (slower_filter past job.1))
  rw [same] at slot
  simp only [Slots.start, same]
  refine ⟨slot, List.rel_append past (.cons ⟨rfl, ?_⟩ .nil)⟩
  dsimp only
  omega

theorem foldl_start_mono {jobs' : List (κ × Nat)} (longer : Slower jobs jobs') {s s' : Slots κ}
    (clocks : s.clock ≤ s'.clock) (past : Slower s.taken s'.taken) :
    Slower (jobs.foldl (Slots.start cap gate) s).taken
      (jobs'.foldl (Slots.start cap gate) s').taken := by
  induction longer generalizing s s' with
  | nil => exact past
  | cons head _ ih =>
    obtain ⟨clocks', past'⟩ := start_mono pos_cap pos_gate clocks past head.1 head.2
    exact ih clocks' past'

/-- Longer jobs never make anything finish earlier. -/
theorem run_mono {jobs' : List (κ × Nat)} (longer : Slower jobs jobs') :
    Slower (run cap gate jobs).taken (run cap gate jobs').taken :=
  foldl_start_mono pos_cap pos_gate longer le_rfl .nil

end

/-! ## Jobs of one length -/

/-- An order cut into consecutive windows: how many are closed, and the open one. -/
structure Packing (κ : Type*) where
  closed : Nat := 0
  current : List κ := []
  deriving DecidableEq

def Packing.fits (cap gate : Nat) (p : Packing κ) (key : κ) : Bool :=
  p.current.length < cap && p.current.count key < gate

def Packing.add (cap gate : Nat) (p : Packing κ) (key : κ) : Packing κ :=
  if p.fits cap gate key then { p with current := p.current ++ [key] }
  else { closed := p.closed + 1, current := [key] }

def pack (cap gate : Nat) (keys : List κ) : Packing κ := keys.foldl (Packing.add cap gate) {}

/-- How many windows the order takes. -/
def windows (cap gate : Nat) (keys : List κ) : Nat :=
  if keys = [] then 0 else (pack cap gate keys).closed + 1

variable {keys : List κ}

theorem current_pack_ne_nil (cap gate : Nat) (some_key : keys ≠ []) :
    (pack cap gate keys).current ≠ [] := by
  obtain ⟨before, last, rfl⟩ : ∃ before last, keys = before ++ [last] :=
    ⟨_, _, (List.dropLast_append_getLast some_key).symm⟩
  rw [pack, List.foldl_append, List.foldl_cons, List.foldl_nil, Packing.add]
  split <;> simp

/-- The dispatcher with jobs of length `T` and the packing at the same point of the order:
the open window started now, and what was started earlier is done. -/
structure InStep (T : Nat) (p : Packing κ) (s : Slots κ) : Prop where
  clock : s.clock = p.closed * T
  taken : ∃ old : List (κ × Nat),
    s.taken = old ++ p.current.map (·, (p.closed + 1) * T) ∧ ∀ x ∈ old, x.2 ≤ p.closed * T

section
variable {cap gate T : Nat} (pos_cap : 0 < cap) (pos_gate : 0 < gate) (pos : 0 < T)
include pos_cap pos_gate pos

variable {s : Slots κ} {p : Packing κ}

/-- A job that fits starts at once; any other waits for the whole window. -/
theorem InStep.clock_start (h : InStep T p s) (key : κ) : (s.start cap gate (key, T)).clock =
      if p.fits cap gate key then p.closed * T else (p.closed + 1) * T := by
  obtain ⟨old, taken, past⟩ := h.taken
  have ahead : p.closed * T < (p.closed + 1) * T := by
    rw [Nat.add_mul]
    omega
  have releases : s.taken.map Prod.snd =
      old.map Prod.snd ++ List.replicate p.current.length ((p.closed + 1) * T) := by
    rw [taken, List.map_append, List.map_map]
    simp [Function.comp_def]
  have of_key : (s.taken.filter (·.1 = key)).map Prod.snd = (old.filter (·.1 = key)).map Prod.snd ++
        List.replicate (p.current.count key) ((p.closed + 1) * T) := by
    rw [taken, List.filter_append, List.map_append, List.filter_map, List.map_map]
    simp [Function.comp_def, List.count_eq_length_filter, beq_eq_decide]
  have past_all : ∀ r ∈ old.map Prod.snd, r ≤ p.closed * T := by
    intro r hr
    obtain ⟨x, hx, rfl⟩ := List.mem_map.mp hr
    exact past x hx
  have past_key : ∀ r ∈ (old.filter (·.1 = key)).map Prod.snd, r ≤ p.closed * T := by
    intro r hr
    obtain ⟨x, hx, rfl⟩ := List.mem_map.mp hr
    exact past x (List.mem_of_mem_filter hx)
  simp only [Slots.start, h.clock, releases, of_key, freeAt_batch pos_cap past_all ahead]
  by_cases room : p.current.length < cap
  · rw [if_pos room, freeAt_batch pos_gate past_key ahead]
    simp [Packing.fits, room]
  · rw [if_neg room, freeAt_of_released pos_gate]
    · simp [Packing.fits, room]
    · intro r hr
      rcases List.mem_append.mp hr with hr | hr
      · exact (past_key r hr).trans ahead.le
      · exact (List.eq_of_mem_replicate hr).le

theorem InStep.start (h : InStep T p s) (key : κ) :
    InStep T (p.add cap gate key) (s.start cap gate (key, T)) := by
  have clock := h.clock_start pos_cap pos_gate pos key
  obtain ⟨old, taken, past⟩ := h.taken
  have started : (s.start cap gate (key, T)).taken =
      s.taken ++ [(key, (s.start cap gate (key, T)).clock + T)] := rfl
  unfold Packing.add
  split at clock
  · rename_i fits
    rw [if_pos fits]
    refine ⟨clock, old, ?_, past⟩
    rw [started, taken, clock, List.append_assoc]
    simp [Nat.add_mul]
  · rename_i full
    rw [if_neg full]
    refine ⟨clock, s.taken, ?_, ?_⟩
    · rw [started, clock]
      simp [Nat.add_mul]
    · intro x hx
      rw [taken] at hx
      rcases List.mem_append.mp hx with hx | hx
      · exact (past x hx).trans (Nat.mul_le_mul_right _ (Nat.le_succ _))
      · obtain ⟨k, -, rfl⟩ := List.mem_map.mp hx
        exact le_rfl

theorem InStep.foldl (h : InStep T p s) : InStep T (keys.foldl (Packing.add cap gate) p)
      ((keys.map (·, T)).foldl (Slots.start cap gate) s) := by
  induction keys generalizing p s with
  | nil => exact h
  | cons key keys ih => exact ih (h.start pos_cap pos_gate pos key)

theorem inStep_run (keys : List κ) :
    InStep T (pack cap gate keys) (run cap gate (keys.map (·, T))) :=
  InStep.foldl pos_cap pos_gate pos ⟨by simp, [], by simp, by simp⟩

/-- Jobs of at most `T` are all done when the last window ends. -/
theorem release_le_windows_mul (short : ∀ job ∈ jobs, job.2 ≤ T) {x : κ × Nat}
    (hx : x ∈ (run cap gate jobs).taken) : x.2 ≤ windows cap gate (jobs.map Prod.fst) * T := by
  have some_key : jobs.map Prod.fst ≠ [] := by
    intro empty
    rw [List.map_eq_nil_iff] at empty
    simp [empty, run] at hx
  obtain ⟨y, hy, later⟩ := exists_slower (run_mono pos_cap pos_gate (slower_uniform short)) hx
  obtain ⟨-, old, taken, past⟩ := inStep_run pos_cap pos_gate pos (jobs.map Prod.fst)
  rw [windows, if_neg some_key]
  rw [taken] at hy
  rcases List.mem_append.mp hy with hy | hy
  · exact later.trans ((past y hy).trans (Nat.mul_le_mul_right _ (Nat.le_succ _)))
  · obtain ⟨k, -, rfl⟩ := List.mem_map.mp hy
    exact later

/-- Jobs of exactly `T` are not all done before. -/
theorem exists_release_eq_windows_mul (some_key : keys ≠ []) :
    ∃ x ∈ (run cap gate (keys.map (·, T))).taken, x.2 = windows cap gate keys * T := by
  obtain ⟨-, old, taken, -⟩ := inStep_run pos_cap pos_gate pos keys
  obtain ⟨key, mem⟩ := List.exists_mem_of_ne_nil _ (current_pack_ne_nil cap gate some_key)
  refine ⟨(key, ((pack cap gate keys).closed + 1) * T), ?_, ?_⟩
  · rw [taken]
    exact List.mem_append_right _ (List.mem_map_of_mem mem)
  · rw [windows, if_neg some_key]

end

end Kconmon.Lib.HeadOfLine
