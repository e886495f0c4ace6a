import Kconmon.Checker.External

/-!
# Which external targets are told apart

A target is its definition id or, without one, its type, name, address and port. The checker knows
it by a text that joins the four with bars. A name may end where another one's bar stands: such
targets are taken for one, and only they. All others have a record of their own that stays theirs
from assignment to assignment.
-/
namespace Kconmon.Checker
open Lib
open Agent (CheckType)

/-! ## Keys -/

/-- What a target is. -/
def ExternalSpec.target (s : ExternalSpec) : String ⊕ CheckType × String × String × Nat :=
  if s.definitionID ≠ "" then .inl s.definitionID else .inr (s.type, s.name, s.address, s.port)

/-- The name of `t` goes on, after a bar, with what the address of `s` begins with. -/
def Imitates (s t : ExternalSpec) : Prop :=
  (s.definitionID = "" ∧ t.definitionID = "") ∧ (s.type = t.type ∧ s.port = t.port) ∧
    ∃ w, t.name = s.name ++ "|" ++ w ∧ s.address = w ++ "|" ++ t.address

theorem bar_notMem_type (type : CheckType) : '|' ∉ type.text.toList := by
  cases type <;> decide

theorem bar_notMem_port (n : Nat) : '|' ∉ (toString n).toList := by
  intro mem
  have digit := Nat.isDigit_of_mem_toDigits (by decide) (by decide)
    (show '|' ∈ Nat.toDigits 10 n by simpa [Nat.toList_repr] using mem)
  simp [Char.isDigit] at digit

theorem text_injective : Function.Injective CheckType.text := by
  intro a b same
  cases a <;> cases b <;> first | rfl | exact absurd same (by decide)

theorem toString_injective : Function.Injective (toString : Nat → String) := by
  intro m n same
  have digits : Nat.toDigits 10 m = Nat.toDigits 10 n := by
    simpa [Nat.toList_repr] using congrArg String.toList same
  rw [← Nat.ofDigitChars_ten_toDigits (n := m), digits, Nat.ofDigitChars_ten_toDigits]

/-- Two texts around a bar are joined alike if they are the same, or if the bar of one is within
the other. -/
theorem joined_eq_iff {x y x' y' : List Char} : x ++ '|' :: y = x' ++ '|' :: y' ↔
    (x = x' ∧ y = y') ∨ (∃ w, x' = x ++ '|' :: w ∧ y = w ++ '|' :: y') ∨
      ∃ w, x = x' ++ '|' :: w ∧ y' = w ++ '|' :: y := by
  constructor
  · rw [List.append_eq_append_iff]
    rintro (⟨w, rfl, same⟩ | ⟨w, rfl, same⟩) <;> cases w <;> grind
  · rintro (⟨rfl, rfl⟩ | ⟨w, rfl, rfl⟩ | ⟨w, rfl, rfl⟩) <;> simp

theorem imitates_iff {s t : ExternalSpec} (plain : s.definitionID = "" ∧ t.definitionID = "")
    (kind : s.type = t.type ∧ s.port = t.port) : Imitates s t ↔
      ∃ w, t.name.toList = s.name.toList ++ '|' :: w ∧
        s.address.toList = w ++ '|' :: t.address.toList := by
  refine ⟨fun ⟨_, _, w, name, address⟩ => ⟨w.toList, by simp [name], by simp [address]⟩,
    fun ⟨w, name, address⟩ => ⟨plain, kind, String.ofList w, ?_, ?_⟩⟩
  · exact String.toList_inj.mp (by simpa using name)
  · exact String.toList_inj.mp (by simpa using address)

/-- The keys of two specs without definition ids: the type ends at the first bar and the port
begins after the last, which leaves the name and the address between. -/
theorem key_eq_iff_of_plain {s t : ExternalSpec}
    (plain : s.definitionID = "" ∧ t.definitionID = "") :
    externalStateKey s = externalStateKey t ↔ (s.type = t.type ∧ s.port = t.port) ∧
      s.name.toList ++ '|' :: s.address.toList = t.name.toList ++ '|' :: t.address.toList := by
  have text : ∀ u : ExternalSpec, u.definitionID = "" → (externalStateKey u).toList =
      u.type.text.toList ++ '|' :: ((u.name.toList ++ '|' :: u.address.toList) ++
        '|' :: (toString u.port).toList) := by
    intro u none
    simp [externalStateKey, none, String.intercalate_cons_cons]
  rw [← String.toList_inj, text s plain.1, text t plain.2]
  constructor
  · intro same
    rcases joined_eq_iff.mp same with ⟨type, rest⟩ | ⟨w, type, -⟩ | ⟨w, type, -⟩
    · rcases joined_eq_iff.mp rest with ⟨middle, port⟩ | ⟨w, -, port⟩ | ⟨w, -, port⟩
      · exact ⟨⟨text_injective (String.toList_inj.mp type),
          toString_injective (String.toList_inj.mp port)⟩, middle⟩
      · exact absurd (port ▸ by simp) (bar_notMem_port s.port)
      · exact absurd (port ▸ by simp) (bar_notMem_port t.port)
    · exact absurd (type ▸ by simp) (bar_notMem_type t.type)
    · exact absurd (type ▸ by simp) (bar_notMem_type s.type)
  · rintro ⟨⟨type, port⟩, middle⟩
    rw [type, port, middle]

theorem key_ne_of_named {s t : ExternalSpec} (plain : s.definitionID = "")
    (named : t.definitionID ≠ "") : externalStateKey s ≠ externalStateKey t := by
  intro same
  have head := congrArg (·.toList.take 4) same
  revert head
  cases type : s.type <;> simp [externalStateKey, plain, named, type, CheckType.text]

theorem key_eq_iff (s t : ExternalSpec) : externalStateKey s = externalStateKey t ↔
    s.target = t.target ∨ Imitates s t ∨ Imitates t s := by
  by_cases named : s.definitionID = "" <;> by_cases named' : t.definitionID = ""
  · rw [key_eq_iff_of_plain ⟨named, named'⟩, joined_eq_iff]
    by_cases kind : s.type = t.type ∧ s.port = t.port
    · rw [imitates_iff ⟨named, named'⟩ kind, imitates_iff ⟨named', named⟩ (by grind)]
      simp [ExternalSpec.target, named, named', kind, String.toList_inj]
    · grind [ExternalSpec.target, Imitates]
  · simp [key_ne_of_named named named', ExternalSpec.target, Imitates, named, named']
  · simp [(key_ne_of_named named' named).symm, ExternalSpec.target, Imitates, named, named']
  · simp [externalStateKey, ExternalSpec.target, Imitates, named, named']

theorem Imitates.target_ne {s t : ExternalSpec} (imitates : Imitates s t) :
    s.target ≠ t.target := by
  obtain ⟨⟨named, named'⟩, -, w, name, -⟩ := imitates
  intro same
  have short : t.name.length = s.name.length := by grind [ExternalSpec.target]
  rw [name, String.length_append, String.length_append] at short
  have bar : "|".length = 1 := by decide
  omega

/-! ## Records -/

namespace ExternalChecker

/-- The record of a target. -/
def record (c : ExternalChecker) (s : ExternalSpec) : Option Nat :=
  c.state.lookup (externalStateKey s)

/-- No two keys share a record, and the keys are those of the specs, of which no two share one. -/
structure Sound (c : ExternalChecker) (records : Records) : Prop where
  own : ∀ k k' n, c.state.lookup k = some n → c.state.lookup k' = some n → k = k'
  filed : ∀ k n, c.state.lookup k = some n → n < records.length
  keyed : ∀ k, (c.state.lookup k).isSome ↔ k ∈ c.specs.map externalStateKey
  distinct : (c.specs.map externalStateKey).Nodup

/-- What the loop of `setSpecs` has made of the specs so far: a record is the one carried over, or
a new one. -/
structure Filing.Sound (state : GoMap String Nat) (start : Nat) (f : Filing) : Prop where
  origin : ∀ k n, f.next.lookup k = some n →
    state.lookup k = some n ∨ (state.lookup k = none ∧ start ≤ n)
  own : ∀ k k' n, f.next.lookup k = some n → f.next.lookup k' = some n → k = k'
  filed : ∀ k n, f.next.lookup k = some n → n < f.records.length
  keyed : ∀ k, (f.next.lookup k).isSome ↔ k ∈ f.kept.map externalStateKey
  distinct : (f.kept.map externalStateKey).Nodup
  grown : start ≤ f.records.length

theorem Filing.Sound.add {c : ExternalChecker} {records : Records} (sound : c.Sound records)
    {f : Filing} (filing : f.Sound c.state records.length) (spec : ExternalSpec) :
    (f.add c.state spec).Sound c.state records.length := by
  have own := sound.own
  have old := sound.filed
  unfold Filing.add
  dsimp only
  split
  · exact filing
  · rename_i new
    rw [← AList.lookup_isSome] at new
    obtain ⟨origin, own', filed, keyed, distinct, grown⟩ := filing
    cases known : c.state.lookup (externalStateKey spec) with
    | some m => constructor <;> grind
    | none => constructor <;> grind

theorem Sound.setSpecs {c : ExternalChecker} {records : Records} (sound : c.Sound records)
    (specs : List ExternalSpec) :
    (specs.foldl (Filing.add c.state) { records, recorded := by simp }).Sound c.state
      records.length := by
  refine foldl_invariant ?_ fun f spec _ filing => filing.add sound spec
  constructor <;> simp

theorem Sound.assign {c : ExternalChecker} {records : Records} (sound : c.Sound records)
    (specs : List ExternalSpec) :
    (c.setSpecs specs records).1.Sound (c.setSpecs specs records).2 := by
  obtain ⟨-, own, filed, keyed, distinct, -⟩ := sound.setSpecs specs
  exact ⟨own, filed, keyed, distinct⟩

theorem mem_collected {c : ExternalChecker} {now : Int} (specs : List ExternalSpec)
    {d : List Slot × Records} {slot : Slot} (held : slot ∈ d.1) :
    slot ∈ (specs.foldl (c.collect now) d).1 := by
  refine foldl_invariant (I := fun d : List Slot × Records => slot ∈ d.1) held fun d u _ held => ?_
  unfold collect
  grind

/-- A spec that does not wait is taken up, whatever the records say of the others. -/
theorem Sound.mem_due {c : ExternalChecker} {records : Records} (sound : c.Sound records)
    {now : Int} {s : ExternalSpec} (listed : s ∈ c.specs) {rs : Records}
    (elapsed : ∀ n, c.record s = some n → ∀ last, (rs.getD n {}).lastProbe = some last →
      s.interval - externalTick / 2 ≤ now - last) :
    ∃ slot ∈ (c.due now rs).1, slot.spec = s := by
  obtain ⟨n, filed⟩ := Option.isSome_iff_exists.mp
    ((sound.keyed (externalStateKey s)).mpr (List.mem_map_of_mem listed))
  have own := fun k => sound.own (externalStateKey s) k n filed
  have distinct := sound.distinct
  specialize elapsed n filed
  unfold due
  generalize ([] : List Slot) = slots
  generalize c.specs = specs at listed distinct
  -- A spec before it stamps another record.
  induction specs generalizing slots rs with
  | nil => simp at listed
  | cons u specs ih =>
    rw [List.map_cons, List.nodup_cons] at distinct
    rw [List.foldl_cons]
    rcases List.mem_cons.mp listed with rfl | later
    · refine ⟨{ spec := s, entry := n }, mem_collected specs ?_, rfl⟩
      have goes : ((rs.getD n {}).lastProbe.any fun last =>
          decide (now - last < s.interval - externalTick / 2)) = false := by
        cases stamped : (rs.getD n {}).lastProbe with
        | none => rfl
        | some last => simpa using elapsed last stamped
      simp [collect, filed, -List.getD_eq_getElem?_getD, goes]
    · have other : externalStateKey u ≠ externalStateKey s :=
        fun same => distinct.1 (same ▸ List.mem_map_of_mem later)
      generalize after : c.collect now (slots, rs) u = d
      obtain ⟨slots', rs'⟩ := d
      refine ih (fun last stamped => elapsed last ?_) slots' later distinct.2
      unfold collect at after
      grind

/-! ## Runs -/

/-- What happens to a checker: an assignment, a sweep that takes up what is due, a report of it. -/
inductive Act where
  | assign (specs : List ExternalSpec)
  | sweep (now : Int)
  | report (entry : Nat) (detail : ExternalDetails)

def act (s : ExternalChecker × Records) : Act → ExternalChecker × Records
  | .assign specs => s.1.setSpecs specs s.2
  | .sweep now => (s.1, (s.1.due now s.2).2)
  | .report entry detail => (s.1, s.2.modify entry (·.record detail))

theorem length_due (c : ExternalChecker) (now : Int) (records : Records) :
    (c.due now records).2.length = records.length := by
  refine foldl_invariant (I := fun d : List Slot × Records => d.2.length = records.length) rfl
    fun d spec _ same => ?_
  unfold collect
  grind

def run (id : Nat) (allowlist : Allowlist) (start : Records) (acts : List Act) :
    ExternalChecker × Records := acts.foldl act (newExternalChecker id allowlist, start)

theorem sound_run (id : Nat) (allowlist : Allowlist) (start : Records) (acts : List Act) :
    (run id allowlist start acts).1.Sound (run id allowlist start acts).2 := by
  refine foldl_invariant (I := fun s : ExternalChecker × Records => s.1.Sound s.2) ?_
    fun s a _ sound => ?_
  · constructor <;> simp [newExternalChecker]
  · cases a with
    | assign specs => exact sound.assign specs
    | sweep now => exact ⟨sound.own, by simpa [act, length_due] using sound.filed, sound.keyed,
        sound.distinct⟩
    | report entry detail => exact ⟨sound.own, by simpa [act] using sound.filed, sound.keyed,
        sound.distinct⟩

/-- An assignment keeps its targets apart: those with one record are the same, each is taken up
when it no longer waits, and it has the record of an earlier target exactly if it is that. -/
structure KeepsApart (c : ExternalChecker) (records : Records) (specs : List ExternalSpec) :
    Prop where
  merged : ∀ s ∈ specs, ∀ t ∈ specs, (c.setSpecs specs records).1.record s =
    (c.setSpecs specs records).1.record t → s.target = t.target
  probed : ∀ s ∈ specs, ∃ kept ∈ (c.setSpecs specs records).1.specs, kept.target = s.target ∧
    ∀ now rs, (∀ n, (c.setSpecs specs records).1.record kept = some n →
      ∀ last, (rs.getD n {}).lastProbe = some last →
        kept.interval - externalTick / 2 ≤ now - last) →
      ∃ slot ∈ ((c.setSpecs specs records).1.due now rs).1, slot.spec = kept
  carried : ∀ s ∈ specs, ∀ t ∈ c.specs,
    (c.setSpecs specs records).1.record s = c.record t ↔ s.target = t.target

section
variable {c : ExternalChecker} {records : Records} {specs : List ExternalSpec} {s t : ExternalSpec}

theorem record_setSpecs_isSome (c : ExternalChecker) (records : Records) (listed : s ∈ specs) :
    ((c.setSpecs specs records).1.record s).isSome := by
  rw [record, AList.lookup_isSome]
  exact ((filing_spec c.state _ rfl rfl specs).2 _).mpr ⟨s, listed, rfl⟩

/-- A target has the record of an earlier one exactly if it has its key. -/
theorem Sound.record_setSpecs_eq_iff (sound : c.Sound records) (listed : s ∈ specs)
    (earlier : t ∈ c.specs) : (c.setSpecs specs records).1.record s = c.record t ↔
      externalStateKey s = externalStateKey t := by
  obtain ⟨n, new⟩ := Option.isSome_iff_exists.mp (record_setSpecs_isSome c records listed)
  obtain ⟨m, old⟩ := Option.isSome_iff_exists.mp
    ((sound.keyed (externalStateKey t)).mpr (List.mem_map_of_mem earlier))
  have origin := (sound.setSpecs specs).origin (externalStateKey s) n new
  have own := sound.own (externalStateKey s) (externalStateKey t) m
  have filed := sound.filed (externalStateKey t) m old
  rw [new, record, old]
  grind

theorem Sound.keepsApart_iff (sound : c.Sound records) (specs : List ExternalSpec) :
    c.KeepsApart records specs ↔
      ∀ s ∈ specs, ∀ t ∈ c.specs ++ specs, ¬ Imitates s t ∧ ¬ Imitates t s := by
  have next := sound.assign specs
  constructor
  · intro apart s listed t held
    suffices no : s.target = t.target ∨ externalStateKey s ≠ externalStateKey t by
      refine ⟨fun imitates => ?_, fun imitates => ?_⟩
      · exact no.elim imitates.target_ne fun differ =>
          differ ((key_eq_iff s t).mpr (.inr (.inl imitates)))
      · exact no.elim (fun same => imitates.target_ne same.symm) fun differ =>
          differ ((key_eq_iff s t).mpr (.inr (.inr imitates)))
    refine or_iff_not_imp_right.mpr fun same => ?_
    rw [not_not] at same
    rcases List.mem_append.mp held with earlier | listed'
    · exact (apart.carried s listed t earlier).mp
        ((sound.record_setSpecs_eq_iff listed earlier).mpr same)
    · exact apart.merged s listed t listed' (by rw [record, same, record])
  · intro plain
    have same : ∀ s ∈ specs, ∀ t ∈ c.specs ++ specs,
        (externalStateKey s = externalStateKey t ↔ s.target = t.target) := by
      intro s listed t held
      have := plain s listed t held
      grind [key_eq_iff]
    refine ⟨fun s listed t listed' one => ?_, fun s listed => ?_, fun s listed t earlier => ?_⟩
    · obtain ⟨n, filed⟩ := Option.isSome_iff_exists.mp (record_setSpecs_isSome c records listed)
      have key := next.own _ _ n filed (one ▸ filed)
      exact (same s listed t (List.mem_append_right _ listed')).mp key
    · obtain ⟨kept, held, key⟩ := List.mem_map.mp
        ((next.keyed _).mp (record_setSpecs_isSome c records listed))
      obtain ⟨before, after, rfl, -⟩ := mem_setSpecs.mp held
      refine ⟨kept, held, ?_, fun now rs => next.mem_due held⟩
      exact (same kept (by simp) s (List.mem_append_right _ listed)).mp key
    · rw [sound.record_setSpecs_eq_iff listed earlier]
      exact same s listed t (List.mem_append_left _ earlier)

end

/-- An assignment at any time keeps its targets apart exactly if none of them imitates another or
one of the assignment before. -/
theorem assignment_keepsApart_iff (id : Nat) (allowlist : Allowlist) (start : Records)
    (acts : List Act) (specs : List ExternalSpec) :
    (run id allowlist start acts).1.KeepsApart (run id allowlist start acts).2 specs ↔
      ∀ s ∈ specs, ∀ t ∈ (run id allowlist start acts).1.specs ++ specs,
        ¬ Imitates s t ∧ ¬ Imitates t s := (sound_run id allowlist start acts).keepsApart_iff specs

/-- A name with a bar in it, and an address with one. -/
def barred (name address : String) : ExternalSpecInput :=
  { name, address, port := 5432, checkType := "tcp", interval := 30000000000 }

/-- Readers for specs without parameters. -/
def bareReaders : Readers where
  empty := ⟨fun _ v => (v, none), fun _ v => .ok v⟩
  http := ⟨fun _ v => (v, none), fun _ v => .ok v⟩
  dns := ⟨fun _ v => (v, none), fun _ v => .ok v⟩
  parseURL _ := none
  quote s := s

/-- Two accepted targets, of which the second is never probed. -/
theorem setSpecs_merges_targets : ∃ s t,
    bareReaders.parseExternalSpec (barred "db|eu" "10.0.0.1") = .ok s ∧
      bareReaders.parseExternalSpec (barred "db" "eu|10.0.0.1") = .ok t ∧ s.target ≠ t.target ∧
        ((newExternalChecker 0 ⟨[], []⟩).setSpecs [s, t] []).1.specs = [s] :=
  ⟨_, _, rfl, rfl, by decide, rfl⟩

end ExternalChecker

end Kconmon.Checker
