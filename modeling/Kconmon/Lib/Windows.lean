import Kconmon.Lib.HeadOfLine
import Mathlib.Data.List.Count

/-!
# How many windows an order takes

The windows of an order that repeats the same rounds of keys. A window that the
next key cannot join is never reopened, so the count is additive at such a point
(`windows_append`), and rounds that end at one can be peeled off period by
period (`windows_rounds`). An order in which no stretch of `cap` keys holds a key
too often is cut into full windows (`windows_of_sparse`).
-/
namespace Kconmon.Lib.HeadOfLine

open Packing

variable {κ : Type*} [DecidableEq κ] {cap gate : Nat}

/-- Windows closed earlier do not matter to what follows. -/
theorem foldl_add_shift (cap gate : Nat) (keys : List κ) (d : Nat) (p : Packing κ) :
    keys.foldl (add cap gate) ⟨d + p.closed, p.current⟩ =
      ⟨d + (keys.foldl (add cap gate) p).closed,
        (keys.foldl (add cap gate) p).current⟩ := by
  induction keys generalizing p with
  | nil => rfl
  | cons key keys ih =>
    have shifted : Packing.add cap gate ⟨d + p.closed, p.current⟩ key =
        ⟨d + (p.add cap gate key).closed, (p.add cap gate key).current⟩ := by
      by_cases fits : p.fits cap gate key = true
      · have fits' : Packing.fits cap gate ⟨d + p.closed, p.current⟩ key = true := fits
        simp [Packing.add, fits, fits']
      · have full : ¬ Packing.fits cap gate ⟨d + p.closed, p.current⟩ key = true := fits
        simp [Packing.add, fits, full, Nat.add_assoc]
    rw [List.foldl_cons, shifted, ih, List.foldl_cons]

/-- A key that does not fit starts over. -/
theorem windows_append (pos_cap : 0 < cap) (pos_gate : 0 < gate) {before rest : List κ}
    (some_key : before ≠ [])
    (full : ∀ key, rest.head? = some key → (pack cap gate before).fits cap gate key = false) :
    windows cap gate (before ++ rest) = windows cap gate before + windows cap gate rest := by
  cases rest with
  | nil => simp [windows]
  | cons key rest =>
    have opened : (pack cap gate before).add cap gate key =
        ⟨(pack cap gate before).closed + 1, [key]⟩ := by
      simp [add, full key rfl]
    have fresh : add cap gate {} key = ⟨0, [key]⟩ := by
      simp [add, fits, pos_cap, pos_gate]
    have shifted := foldl_add_shift cap gate rest ((pack cap gate before).closed + 1) ⟨0, [key]⟩
    have alone : pack cap gate (key :: rest) = rest.foldl (add cap gate) ⟨0, [key]⟩ := by
      rw [pack, List.foldl_cons, fresh]
    have both : pack cap gate (before ++ key :: rest) =
        rest.foldl (add cap gate) ⟨(pack cap gate before).closed + 1, [key]⟩ := by
      rw [pack, List.foldl_append, ← pack, List.foldl_cons, opened]
    simp only [Nat.add_zero] at shifted
    simp only [windows, List.append_eq_nil_iff, some_key, reduceCtorEq, and_false, if_false, both,
      shifted, alone]
    omega

/-- Renaming the keys apart changes no window. -/
theorem windows_map {μ : Type*} [DecidableEq μ] {f : μ → κ} (inj : f.Injective) (keys : List μ) :
    windows cap gate (keys.map f) = windows cap gate keys := by
  have renamed : ∀ p : Packing μ, (keys.map f).foldl (add cap gate) ⟨p.closed, p.current.map f⟩ =
        ⟨(keys.foldl (add cap gate) p).closed,
          (keys.foldl (add cap gate) p).current.map f⟩ := by
    induction keys with
    | nil => simp
    | cons key keys ih =>
      intro p
      have fits : fits cap gate ⟨p.closed, p.current.map f⟩ (f key) = p.fits cap gate key := by
        simp [fits, List.count_map_of_injective _ f inj]
      have added : add cap gate ⟨p.closed, p.current.map f⟩ (f key) =
          ⟨(p.add cap gate key).closed, (p.add cap gate key).current.map f⟩ := by
        unfold add
        rw [fits]
        split <;> simp
      rw [List.map_cons, List.foldl_cons, added, ih, List.foldl_cons]
  have same := congrArg closed (renamed {})
  simp only [List.map_nil] at same
  simp only [windows, pack, List.map_eq_nil_iff]
  rw [same]

/-! ## Sparse orders -/

/-- From every point on, the next `cap` keys would fit one window. -/
def Sparse (cap gate : Nat) (keys : List κ) : Prop :=
  ∀ rest, rest <:+ keys → ∀ key, (rest.take cap).count key ≤ gate

variable {keys : List κ} {key : κ}

theorem Sparse.tail (sparse : Sparse cap gate (key :: keys)) : Sparse cap gate keys :=
      fun rest suffix => sparse rest (suffix.trans (List.suffix_cons key keys))

theorem Sparse.first (pos_cap : 0 < cap) (sparse : Sparse cap gate (key :: keys)) (other : κ) :
    ([key] ++ keys.take (cap - [key].length)).count other ≤ gate := by
  have stretch := sparse (key :: keys) (List.suffix_refl _) other
  rwa [show cap = cap - 1 + 1 by omega, List.take_succ_cons] at stretch

theorem closed_foldl_of_sparse (pos_cap : 0 < cap) (sparse : Sparse cap gate keys) {closed : Nat}
    {window : List κ} (some_key : 0 < window.length) (room : window.length ≤ cap)
    (joint : ∀ key, (window ++ keys.take (cap - window.length)).count key ≤ gate) :
    (keys.foldl (add cap gate) ⟨closed, window⟩).closed + 1 =
      closed + (window.length + keys.length + cap - 1) / cap := by
  induction keys generalizing closed window with
  | nil =>
    have one : (window.length + cap - 1) / cap = 1 := Nat.div_eq_of_lt_le (by omega) (by omega)
    simp [one]
  | cons key keys ih =>
    by_cases full : window.length = cap
    · have opened : add cap gate ⟨closed, window⟩ key = ⟨closed + 1, [key]⟩ := by
        simp [add, fits, full]
      have one_key : 0 < [key].length := Nat.one_pos
      have more : window.length + (key :: keys).length + cap - 1 =
          [key].length + keys.length + cap - 1 + cap := by
        simp only [List.length_cons, List.length_nil]
        omega
      rw [List.foldl_cons, opened, ih sparse.tail one_key pos_cap (sparse.first pos_cap), more,
        Nat.add_div_right _ pos_cap]
      omega
    · have next : ∀ other,
          ((window ++ [key]) ++ keys.take (cap - (window ++ [key]).length)).count other ≤ gate := by
        intro other
        have stretch := joint other
        rw [show cap - window.length = cap - (window ++ [key]).length + 1 by
          rw [List.length_append, List.length_singleton]; omega, List.take_succ_cons] at stretch
        rwa [List.append_assoc]
      have fits : fits cap gate ⟨closed, window⟩ key = true := by
        have := next key
        simp only [List.count_append, List.count_singleton_self] at this
        simp only [fits, Bool.and_eq_true, decide_eq_true_eq]
        omega
      have joined : add cap gate ⟨closed, window⟩ key = ⟨closed, window ++ [key]⟩ := by
        simp [add, fits]
      have longer : (window ++ [key]).length = window.length + 1 := by simp
      rw [List.foldl_cons, joined, ih sparse.tail (by omega) (by omega) next, longer,
        List.length_cons]
      congr 2
      omega

/-- A sparse order is cut into full windows. -/
theorem windows_of_sparse (pos_cap : 0 < cap) (pos_gate : 0 < gate)
    (sparse : Sparse cap gate keys) : windows cap gate keys = (keys.length + cap - 1) / cap := by
  cases keys with
  | nil => simp [windows, Nat.div_eq_of_lt (show cap - 1 < cap by omega)]
  | cons key keys =>
    have fresh : add cap gate {} key = ⟨0, [key]⟩ := by
      simp [add, fits, pos_cap, pos_gate]
    have one_key : 0 < [key].length := Nat.one_pos
    rw [windows, if_neg (by simp), pack, List.foldl_cons, fresh,
      closed_foldl_of_sparse pos_cap sparse.tail one_key pos_cap (sparse.first pos_cap),
      Nat.zero_add, List.length_singleton, List.length_cons, Nat.add_comm 1]

omit [DecidableEq κ] in
theorem suffix_append_cases {rest xs ys : List κ} (suffix : rest <:+ xs ++ ys) :
    rest <:+ ys ∨ ∃ end_of, end_of <:+ xs ∧ end_of ≠ [] ∧ rest = end_of ++ ys := by
  obtain ⟨before, eq⟩ := suffix
  rcases List.append_eq_append_iff.mp eq with ⟨mid, hx, hr⟩ | ⟨mid, hb, hy⟩
  · cases mid with
    | nil => exact .inl (by simp [hr])
    | cons x mid => exact .inr ⟨x :: mid, ⟨before, hx.symm⟩, by simp, hr⟩
  · exact .inl ⟨mid, hy.symm⟩

/-- Rounds without repeated keys, all but the last nearly as long as a window: a window
then meets no more than two of them. -/
theorem sparse_flatten {rs : List (List κ)} (distinct : ∀ r ∈ rs, r.Nodup)
    (long : ∀ r ∈ rs.dropLast, cap ≤ r.length + 1) : Sparse cap 2 rs.flatten := by
  induction rs with
  | nil =>
    intro rest suffix key
    rw [List.suffix_nil.mp suffix]
    simp
  | cons r rs ih =>
    intro rest suffix key
    rcases suffix_append_cases suffix with later | ⟨end_of, of_r, some_key, rfl⟩
    · refine ih (fun s hs => distinct s (List.mem_cons_of_mem _ hs)) ?_ rest later key
      intro s hs
      cases rs with
      | nil => simp at hs
      | cons _ _ => exact long s (List.mem_cons_of_mem _ hs)
    · have once : end_of.count key ≤ 1 :=
        List.nodup_iff_count_le_one.mp ((distinct r (by simp)).sublist of_r.sublist) key
      cases rs with
      | nil =>
        have := (List.take_sublist cap end_of).count_le key
        simp only [List.flatten_nil, List.append_nil]
        omega
      | cons r' rs =>
        have once' : r'.count key ≤ 1 := List.nodup_iff_count_le_one.mp (distinct r' (by simp)) key
        have two : ((end_of ++ (r' :: rs).flatten).take cap).count key ≤
            (end_of ++ r').count key := by
          refine List.Sublist.count_le key ?_
          cases rs with
          | nil => simpa using List.take_sublist cap _
          | cons r'' rs =>
            have enough : cap ≤ (end_of ++ r').length := by
              have := long r' (by simp)
              have := List.length_pos_iff.mpr some_key
              rw [List.length_append]
              omega
            rw [List.flatten_cons, ← List.append_assoc, List.take_append_of_le_length enough]
            exact List.take_sublist _ _
        rw [List.count_append] at two
        omega

/-! ## Repeated rounds -/

/-- The keys over and over, `n` times. -/
def rounds (n : Nat) (keys : List κ) : List κ := (List.replicate n keys).flatten

omit [DecidableEq κ] in
theorem rounds_add (m n : Nat) (keys : List κ) :
    rounds (m + n) keys = rounds m keys ++ rounds n keys := by
  rw [rounds, List.replicate_add, List.flatten_append]
  rfl

omit [DecidableEq κ] in
theorem mem_rounds {n : Nat} (h : key ∈ rounds n keys) : key ∈ keys := by
  obtain ⟨l, hl, mem⟩ := List.mem_flatten.mp h
  rwa [List.eq_of_mem_replicate hl] at mem

omit [DecidableEq κ] in
@[simp] theorem length_rounds (n : Nat) (keys : List κ) :
    (rounds n keys).length = n * keys.length := by
  simp [rounds]

omit [DecidableEq κ] in
@[simp] theorem rounds_map {μ : Type*} (f : μ → κ) (n : Nat) (keys : List μ) :
    rounds n (keys.map f) = (rounds n keys).map f := by
  simp [rounds, List.map_flatten]

/-- When `period` rounds end in a window no key can join, each further period takes as
many windows as the first. -/
theorem windows_rounds (pos_cap : 0 < cap) (pos_gate : 0 < gate) {period : Nat}
    (some_key : rounds period keys ≠ [])
    (full : ∀ key ∈ keys, (pack cap gate (rounds period keys)).fits cap gate key = false)
    (q r : Nat) (tail : List κ) (known : ∀ key ∈ tail, key ∈ keys) :
    windows cap gate (rounds (period * q + r) keys ++ tail) =
      q * windows cap gate (rounds period keys) + windows cap gate (rounds r keys ++ tail) := by
  induction q with
  | zero => simp
  | succ q ih =>
    have split : rounds (period * (q + 1) + r) keys ++ tail =
        rounds period keys ++ (rounds (period * q + r) keys ++ tail) := by
      rw [← List.append_assoc, ← rounds_add]
      congr 2
      rw [Nat.mul_add]
      omega
    rw [split, windows_append pos_cap pos_gate some_key, ih]
    · rw [Nat.add_mul]
      omega
    · intro key head
      refine full key ?_
      rcases List.mem_append.mp (List.mem_of_mem_head? head) with h | h
      · exact mem_rounds h
      · exact known key h

end Kconmon.Lib.HeadOfLine
