import Kconmon.Console.BodyLimit
import Kconmon.Console.OnePerZone
import Kconmon.Lib.Lists
import Mathlib.Algebra.Order.BigOperators.Group.List
import Mathlib.Algebra.Order.Ring.Int
import Mathlib.Algebra.CharP.Defs

/-!
# What fitting the body keeps

The bound on the size is that of the agents' keys and of the specs that are left. Either
the loop stops because it is within the limit, or it has left out every definition and
the body is empty.
-/
namespace Kconmon.Console.Assign
open Lib

abbrev AgentSpecs := Sigma fun _ : String => List ExternalCheckSpec

variable (json : Json)

/-- The bytes of specs, with a separator each. -/
def weigh (specs : List ExternalCheckSpec) : Int := (specs.map fun s => json.size s + 1).sum

/-- The bytes of the agents' keys, with a list and a separator each. -/
def weighKeys (entries : List AgentSpecs) : Int :=
  (entries.map fun e => ((json.quote e.1).length + 4 : Int)).sum

def allSpecs (m : Assigned) : List ExternalCheckSpec := m.entries.flatMap Sigma.snd

variable {json}

@[simp] theorem weigh_nil : weigh json [] = 0 := rfl

@[simp] theorem weigh_cons (s : ExternalCheckSpec) (l : List ExternalCheckSpec) :
    weigh json (s :: l) = json.size s + 1 + weigh json l := by
  rw [weigh, List.map_cons, List.sum_cons, weigh]

theorem weigh_append (l l' : List ExternalCheckSpec) :
    weigh json (l ++ l') = weigh json l + weigh json l' := by
  simp [weigh]

/-- Specs split by a test, the second part being what the test takes out. -/
theorem weigh_filter_split (json : Json) (p q : ExternalCheckSpec → Bool)
    (l : List ExternalCheckSpec) : weigh json (l.filter p) =
      weigh json (l.filter fun s => p s && !q s) + weigh json (l.filter fun s => p s && q s) := by
  induction l with
  | nil => rfl
  | cons s l ih =>
    cases hp : p s <;> cases hq : q s <;> simp [hp, hq] <;> omega

/-! ## The bound -/

/-- All specs of one definition encode alike. -/
def Alike (json : Json) (specs : List ExternalCheckSpec) : Prop :=
  ∀ s ∈ specs, ∀ s' ∈ specs, s.definitionID = s'.definitionID → json.marshal s = json.marshal s'

def ofDefinition (id : String) (specs : List ExternalCheckSpec) : List ExternalCheckSpec :=
  specs.filter (·.definitionID = id)

/-- The counts after the specs `seen` of those in `all`. -/
structure Sizes.Sound (json : Json) (all seen : List ExternalCheckSpec) (keys : Int) (s : Sizes) :
    Prop where
  size : s.size = keys + weigh json seen
  memo : ∀ spec ∈ all, ∀ n, s.specBytes.lookup spec.definitionID = some n → n = json.size spec + 1
  cost : ∀ id, s.cost.lookup id =
    if ofDefinition id seen = [] then none else some (weigh json (ofDefinition id seen))

variable {all seen : List ExternalCheckSpec} {keys : Int} {s : Sizes}

section
variable (sound : s.Sound json all seen keys)
include sound

theorem Sizes.Sound.addSpec (alike : Alike json all)
    {spec : ExternalCheckSpec} (listed : spec ∈ all) :
    (s.addSpec json spec).Sound json all (seen ++ [spec]) keys := by
  have bytes : (s.specBytes.lookup spec.definitionID).getD (json.size spec + 1) =
      json.size spec + 1 := by
    cases held : s.specBytes.lookup spec.definitionID with
    | none => rfl
    | some n => exact sound.memo spec listed n held
  refine ⟨?_, ?_, ?_⟩
  · simp only [Sizes.addSpec, bytes, sound.size, weigh_append, weigh_cons, weigh_nil]
    omega
  · intro spec' listed' n held
    simp only [Sizes.addSpec, bytes] at held
    rcases GoMap.cases_insert held with ⟨same, rfl⟩ | ⟨-, held⟩
    · simp [Json.size, alike spec' listed' spec listed same]
    · exact sound.memo spec' listed' n held
  · intro id
    simp only [Sizes.addSpec, bytes, GoMap.lookup_insert_if, sound.cost]
    by_cases same : id = spec.definitionID
    · subst same
      have grown : ofDefinition spec.definitionID (seen ++ [spec]) =
          ofDefinition spec.definitionID seen ++ [spec] := by
        simp [ofDefinition]
      by_cases empty : ofDefinition spec.definitionID seen = []
      · simp [grown, empty]
      · simp [grown, empty, weigh_append]
    · have unchanged : ofDefinition id (seen ++ [spec]) = ofDefinition id seen := by
        simp [ofDefinition, Ne.symm same]
      simp [same, unchanged]

theorem Sizes.Sound.addSpecs (alike : Alike json all)
    {specs : List ExternalCheckSpec} (listed : ∀ spec ∈ specs, spec ∈ all) :
    (specs.foldl (Sizes.addSpec json) s).Sound json all (seen ++ specs) keys := by
  induction specs generalizing s seen with
  | nil => simpa using sound
  | cons spec specs ih =>
    have next := ih (sound.addSpec alike (listed spec (by simp)))
      fun spec' h => listed spec' (List.mem_cons_of_mem _ h)
    simpa using next

theorem Sizes.Sound.addAgents (alike : Alike json all)
    {entries : List AgentSpecs} (listed : ∀ e ∈ entries, ∀ spec ∈ e.2, spec ∈ all) :
    (entries.foldl (Sizes.addAgent json) s).Sound json all (seen ++ entries.flatMap Sigma.snd)
      (keys + weighKeys json entries) := by
  induction entries generalizing s seen keys with
  | nil => simpa [weighKeys] using sound
  | cons e entries ih =>
    have keyed : ({ s with size := s.size + ((json.quote e.1).length + 4) } : Sizes).Sound json all
        seen (keys + ((json.quote e.1).length + 4)) :=
      ⟨by simp only [sound.size]; omega, sound.memo, sound.cost⟩
    have next := ih (keyed.addSpecs alike (listed e (by simp)))
      fun e' h => listed e' (List.mem_cons_of_mem _ h)
    have total : keys + weighKeys json (e :: entries) =
        keys + ((json.quote e.1).length + 4) + weighKeys json entries := by
      simp only [weighKeys, List.map_cons, List.sum_cons]
      omega
    rw [List.foldl_cons, List.flatMap_cons, ← List.append_assoc, total]
    exact next

end

theorem sizes_sound {m : Assigned} (alike : Alike json (allSpecs m)) :
    (sizes json m).Sound json (allSpecs m) (allSpecs m) (13 + weighKeys json m.entries) := by
  have start : ({} : Sizes).Sound json (allSpecs m) [] 13 :=
    ⟨rfl, fun _ _ _ held => by simp at held, fun id => by simp [ofDefinition]⟩
  exact start.addAgents alike fun e he spec hs => List.mem_flatMap.mpr ⟨e, he, hs⟩

/-! ## The body is within the bound -/

theorem length_intercalate_le (sep : Bytes) (one : sep.length = 1) (items : List Bytes) :
    ((sep.intercalate items).length : Int) ≤ (items.map fun b => (b.length + 1 : Int)).sum := by
  induction items with
  | nil => simp
  | cons b items ih =>
    cases items with
    | nil => simp
    | cons b' items =>
      rw [List.intercalate_cons_cons, List.map_cons, List.sum_cons]
      simp only [List.length_append, one]
      push_cast
      omega

/-- Encodings one by one, each within the bound of what it encodes. -/
theorem sum_mapM_le {α : Type} {f : α → Option Bytes} (bound : α → Int)
    (within : ∀ a b, f a = some b → (b.length + 1 : Int) ≤ bound a) {l : List α} {items :
      List Bytes}
    (encoded : l.mapM f = some items) :
    (items.map fun b => (b.length + 1 : Int)).sum ≤ (l.map bound).sum := by
  induction l generalizing items with
  | nil =>
    obtain rfl : items = [] := by simpa using encoded.symm
    simp
  | cons a l ih =>
    simp only [List.mapM_cons, Option.bind_eq_bind, Option.bind_eq_some_iff, Option.pure_def,
      Option.some.injEq] at encoded
    obtain ⟨b, first, rest, tail, rfl⟩ := encoded
    have := within a b first
    have := ih tail
    simp only [List.map_cons, List.sum_cons]
    omega

/-- The bound of one agent's part. -/
def Json.entryBound (json : Json) (e : AgentSpecs) : Int :=
  (json.quote e.1).length + 4 + weigh json e.2

theorem Json.length_field_le {e : AgentSpecs} {b : Bytes} (encoded : json.field e = some b) :
    (b.length + 1 : Int) ≤ json.entryBound e := by
  simp only [Json.field, Json.array, Option.map_map, Option.map_eq_some_iff, Function.comp_apply]
    at encoded
  obtain ⟨items, specs, rfl⟩ := encoded
  have list := length_intercalate_le (ascii ",") rfl items
  have sized := sum_mapM_le (fun s => json.size s + 1)
    (fun s b found => by simp [Json.size, found]) specs
  have colon : (ascii ":").length = 1 := rfl
  have opening : (ascii "[").length = 1 := rfl
  have closing : (ascii "]").length = 1 := rfl
  simp only [List.length_append, colon, opening, closing, Json.entryBound, weigh]
  push_cast
  omega

/-- The bound of a list of agents, without the braces around it. -/
def Json.bound (json : Json) (entries : List AgentSpecs) : Int := (entries.map json.entryBound).sum

theorem Json.length_body_le {m : Assigned} {b : Bytes} (encoded : json.body m = some b) :
    (b.length : Int) ≤ 13 + json.bound m.entries := by
  obtain ⟨fields, written, rfl⟩ := Option.map_eq_some_iff.mp encoded
  have list := length_intercalate_le (ascii ",") rfl fields
  have sized := sum_mapM_le json.entryBound (fun _ _ => Json.length_field_le) written
  rw [((List.perm_insertionSort _ _).map json.entryBound).sum_eq] at sized
  have opening : (ascii "\x7b\"agents\":\x7b").length = 11 := rfl
  have closing : (ascii "\x7d\x7d").length = 2 := rfl
  simp only [List.length_append, opening, closing, Json.bound]
  push_cast
  omega

/-! ## What is left -/

def keptSpecs (dropped : List String) (specs : List ExternalCheckSpec) : List ExternalCheckSpec :=
  specs.filter fun spec => !dropped.contains spec.definitionID

theorem keepSpecs_eq (dropped : List String) (acc : Assigned × Nat) (e : AgentSpecs) :
    keepSpecs dropped acc e = if keptSpecs dropped e.2 = [] then (acc.1.erase e.1, acc.2)
      else (AList.insert e.1 (keptSpecs dropped e.2) acc.1,
        acc.2 + (keptSpecs dropped e.2).length) := by
  rw [keepSpecs, filterInPlace_eq]
  change (if (keptSpecs dropped e.2).length = 0 then _ else _) = _
  by_cases empty : keptSpecs dropped e.2 = []
  · rw [if_pos empty, if_pos (List.length_eq_zero_iff.mpr empty)]
  · rw [if_neg empty, if_neg (mt List.length_eq_zero_iff.mp empty)]
    rfl

theorem foldl_keepSpecs_series (dropped : List String) (entries : List AgentSpecs)
    (acc : Assigned × Nat) : (entries.foldl (keepSpecs dropped) acc).2 =
      acc.2 + (entries.map fun e => (keptSpecs dropped e.2).length).sum := by
  induction entries generalizing acc with
  | nil => simp
  | cons e entries ih =>
    rw [List.foldl_cons, ih, keepSpecs_eq, List.map_cons, List.sum_cons]
    split
    · rename_i empty
      simp [empty]
    · simp [Nat.add_assoc]

/-- The list an agent is left with, none when it is empty. -/
def leftFor (dropped : List String) (specs : List ExternalCheckSpec) :
    Option (List ExternalCheckSpec) :=
  if keptSpecs dropped specs = [] then none else some (keptSpecs dropped specs)

theorem lookup_foldl_keepSpecs (dropped : List String) (m : Assigned) (agent : String) :
    (m.entries.foldl (keepSpecs dropped) (m, 0)).1.lookup agent =
      (m.lookup agent).bind (leftFor dropped) := by
  have own : ∀ (acc : Assigned × Nat) (e : AgentSpecs),
      (keepSpecs dropped acc e).1.lookup e.1 = leftFor dropped e.2 := by
    intro acc e
    rw [keepSpecs_eq, leftFor]
    split
    · exact AList.lookup_erase e.1 acc.1
    · exact AList.lookup_insert acc.1
  have other : ∀ (acc : Assigned × Nat) (e : AgentSpecs) k, k ≠ e.1 →
      (keepSpecs dropped acc e).1.lookup k = acc.1.lookup k := by
    intro acc e k differ
    rw [keepSpecs_eq]
    split
    · exact AList.lookup_erase_ne differ
    · exact AList.lookup_insert_ne differ
  rw [foldl_by_key (g := fun _ e => leftFor dropped e.2)
    (fun (acc : Assigned × Nat) k => acc.1.lookup k) own other]
  cases held : m.lookup agent with
  | none =>
    have absent : m.entries.filter (·.1 = agent) = [] := by
      refine List.filter_eq_nil_iff.mpr fun e he same => ?_
      obtain ⟨k, v⟩ := e
      obtain rfl : k = agent := by simpa using same
      rw [AList.mem_lookup_iff.mpr he] at held
      cases held
    rw [absent]
    rfl
  | some v =>
    have entry : (⟨agent, v⟩ : AgentSpecs) ∈ m.entries := AList.mem_lookup_iff.mp held
    have one : m.entries.filter (·.1 = agent) = [⟨agent, v⟩] :=
      filter_key_eq_singleton m.nodupKeys entry
    rw [one]
    rfl

/-- The agents that are left, with what they are left with. -/
def leftEntries (dropped : List String) (entries : List AgentSpecs) : List AgentSpecs :=
  (entries.map (Sigma.map id fun _ => keptSpecs dropped)).filter fun e : AgentSpecs => !e.2.isEmpty

theorem entries_foldl_keepSpecs (dropped : List String) (m : Assigned) :
    (m.entries.foldl (keepSpecs dropped) (m, 0)).1.entries.Perm (leftEntries dropped m.entries) :=
      by
  refine GoMap.perm_entries _ ((GoMap.mapped (keptSpecs dropped) m).sieve fun specs =>
    !specs.isEmpty) fun agent => ?_
  rw [lookup_foldl_keepSpecs, GoMap.lookup_sieve, GoMap.lookup_mapped]
  cases m.lookup agent with
  | none => rfl
  | some specs =>
    rw [Option.bind_some, Option.map_some, leftFor]
    by_cases empty : keptSpecs dropped specs = []
    · rw [if_pos empty, empty]
      rfl
    · rw [if_neg empty, Option.filter_some_pos (by simpa using empty)]

theorem leftEntries_cons (dropped : List String) (e : AgentSpecs) (entries : List AgentSpecs) :
    leftEntries dropped (e :: entries) =
      if keptSpecs dropped e.2 = [] then leftEntries dropped entries
      else ⟨e.1, keptSpecs dropped e.2⟩ :: leftEntries dropped entries := by
  by_cases empty : keptSpecs dropped e.2 = [] <;> simp [leftEntries, Sigma.map, empty]

theorem length_leftEntries (dropped : List String) (entries : List AgentSpecs) :
    ((leftEntries dropped entries).map fun e => e.2.length).sum =
      (entries.map fun e => (keptSpecs dropped e.2).length).sum := by
  induction entries with
  | nil => rfl
  | cons e entries ih =>
    rw [leftEntries_cons, List.map_cons, List.sum_cons, ← ih]
    split
    · rename_i empty
      simp [empty]
    · simp

theorem bound_leftEntries_le (json : Json) (dropped : List String) (entries : List AgentSpecs) :
    json.bound (leftEntries dropped entries) ≤
      weighKeys json entries + weigh json (keptSpecs dropped (entries.flatMap Sigma.snd)) := by
  induction entries with
  | nil => simp [leftEntries, Json.bound, weighKeys, keptSpecs]
  | cons e entries ih =>
    have keys : weighKeys json (e :: entries) =
        (json.quote e.1).length + 4 + weighKeys json entries := by
      simp [weighKeys]
    have specs : keptSpecs dropped ((e :: entries).flatMap Sigma.snd) =
        keptSpecs dropped e.2 ++ keptSpecs dropped (entries.flatMap Sigma.snd) := by
      simp [keptSpecs]
    rw [leftEntries_cons, keys, specs, weigh_append]
    split
    · rename_i empty
      rw [empty, weigh_nil]
      omega
    · simp only [Json.bound, List.map_cons, List.sum_cons, Json.entryBound] at ih ⊢
      omega

/-! ## Which definitions are left out -/

/-- The loop leaves out the first definitions of the list, and stops only within the limit. -/
theorem shed_prefix (cost : GoMap String Int) (defs : List Definition) (size : Int) :
    ∃ out rest, defs = out ++ rest ∧ shed cost defs size = out.map Definition.id ∧
      (rest = [] ∨ size - (out.map fun d => (cost.lookup d.id).getD 0).sum ≤
        maxExternalChecksBodyBytes) := by
  induction defs generalizing size with
  | nil => exact ⟨[], [], rfl, rfl, .inl rfl⟩
  | cons d defs ih =>
    by_cases fits : size ≤ maxExternalChecksBodyBytes
    · exact ⟨[], d :: defs, rfl, by simp [shed, fits], .inr (by simpa using fits)⟩
    · obtain ⟨out, rest, rfl, dropped, stop⟩ := ih (size - (cost.lookup d.id).getD 0)
      refine ⟨d :: out, rest, rfl, by simp [shed, fits, dropped], stop.imp_right fun within => ?_⟩
      simp only [List.map_cons, List.sum_cons]
      omega

/-- Taking the definitions out one by one leaves the weight of the others. -/
theorem weigh_keptSpecs (json : Json) {dropped : List String} (distinct : dropped.Nodup)
    (specs : List ExternalCheckSpec) : weigh json (keptSpecs dropped specs) =
      weigh json specs - (dropped.map fun id => weigh json (ofDefinition id specs)).sum := by
  induction dropped with
  | nil => simp [keptSpecs]
  | cons id dropped ih =>
    obtain ⟨fresh, distinct⟩ := List.nodup_cons.mp distinct
    have split := weigh_filter_split json (fun s => !dropped.contains s.definitionID)
      (fun s => s.definitionID = id) specs
    have first : (specs.filter fun s =>
          !dropped.contains s.definitionID && !decide (s.definitionID = id)) =
        keptSpecs (id :: dropped) specs := by
      refine List.filter_congr fun s _ => ?_
      grind
    have second : (specs.filter fun s =>
          !dropped.contains s.definitionID && decide (s.definitionID = id)) =
        ofDefinition id specs := by
      refine List.filter_congr fun s _ => ?_
      grind
    rw [first, second] at split
    rw [List.map_cons, List.sum_cons]
    have := ih distinct
    simp only [keptSpecs] at this split ⊢
    omega

/-- Neither is the older one first. -/
theorem newestFirst_sorted (cost : GoMap String Int) (defs : List Definition) :
    (newestFirst cost defs).Pairwise fun a b => b.newer a = false := by
  have total : Std.Total fun a b : Definition => b.newer a = false := by
    refine ⟨fun a b => ?_⟩
    simp only [Definition.newer]
    grind
  have trans : IsTrans Definition fun a b => b.newer a = false := by
    refine ⟨fun a b c hab hbc => ?_⟩
    simp only [Definition.newer] at *
    grind
  exact List.pairwise_insertionSort _ _

variable {d : Definition}

theorem mem_newestFirst {cost : GoMap String Int} {defs : List Definition} :
    d ∈ newestFirst cost defs ↔ d ∈ defs ∧ (cost.lookup d.id).isSome := by
  simp [newestFirst, List.mem_insertionSort]

theorem nodup_newestFirst (cost : GoMap String Int) {defs : List Definition}
    (distinct : (defs.map Definition.id).Nodup) :
    ((newestFirst cost defs).map Definition.id).Nodup := by
  have order := (List.perm_insertionSort (fun a b : Definition => b.newer a = false)
    (defs.filter fun d => (cost.lookup d.id).isSome)).map Definition.id
  exact order.nodup_iff.mpr (distinct.sublist (List.filter_sublist.map _))

/-! ## The result -/

/-- A definition that some agent has a spec of. -/
def Keeps (m : Assigned) (id : String) : Prop :=
  ∃ agent specs, m.lookup agent = some specs ∧ ∃ s ∈ specs, s.definitionID = id

/-- The specs of a definition that an agent has. -/
def specsOf (m : Assigned) (agent id : String) : List ExternalCheckSpec :=
  ofDefinition id ((m.lookup agent).getD [])

/-- What the reconciler relies on when it sends `out` for `m`. -/
structure Fits (json : Json) (m : Assigned) (defs : List Definition) (out : Assigned × Nat) :
    Prop where
  encodes : (∀ s ∈ allSpecs m, (json.marshal s).isSome) → (json.body out.1).isSome
  within : ∀ body, json.body out.1 = some body → (body.length : Int) ≤ maxExternalChecksBodyBytes
  whole : ∀ id, (∀ agent, specsOf out.1 agent id = specsOf m agent id) ∨
    ∀ agent, specsOf out.1 agent id = []
  older : ∀ d ∈ defs, ∀ d' ∈ defs, Keeps out.1 d.id → Keeps m d'.id → d.newer d' = true →
    Keeps out.1 d'.id
  nonempty : ∀ agent specs, out.1.lookup agent = some specs → specs ≠ []
  untouched : (sizes json m).size ≤ maxExternalChecksBodyBytes → out.1 = m
  counted : out.1 ≠ m → out.2 = (out.1.entries.map fun e => e.2.length).sum

theorem isSome_mapM {α β : Type} {f : α → Option β} {l : List α} (each : ∀ a ∈ l, (f a).isSome) :
    (l.mapM f).isSome := by
  induction l with
  | nil => rfl
  | cons a l ih =>
    obtain ⟨b, first⟩ := Option.isSome_iff_exists.mp (each a (by simp))
    have later := ih fun a h => each a (List.mem_cons_of_mem _ h)
    obtain ⟨bs, rest⟩ := Option.isSome_iff_exists.mp later
    simp [List.mapM_cons, first, rest]

theorem isSome_body {m : Assigned} (each : ∀ s ∈ allSpecs m, (json.marshal s).isSome) :
    (json.body m).isSome := by
  rw [Json.body, Option.isSome_map]
  refine isSome_mapM fun e he => ?_
  rw [Json.field, Option.isSome_map, Json.array, Option.isSome_map]
  refine isSome_mapM fun s hs => each s ?_
  exact List.mem_flatMap.mpr ⟨e, (List.mem_insertionSort _).mp he, hs⟩

theorem bound_eq (entries : List AgentSpecs) :
    json.bound entries = weighKeys json entries + weigh json (entries.flatMap Sigma.snd) := by
  induction entries with
  | nil => rfl
  | cons e entries ih =>
    simp only [Json.bound, weighKeys, List.map_cons, List.sum_cons, List.flatMap_cons, weigh_append,
      Json.entryBound] at ih ⊢
    omega

theorem mem_allSpecs {m : Assigned} {s : ExternalCheckSpec} :
    s ∈ allSpecs m ↔ ∃ agent specs, m.lookup agent = some specs ∧ s ∈ specs := by
  simp only [allSpecs, List.mem_flatMap, Sigma.exists, ← AList.mem_lookup_iff, Option.mem_def]

theorem keeps_iff {m : Assigned} {id : String} :
    Keeps m id ↔ ∃ s ∈ allSpecs m, s.definitionID = id := by
  simp only [Keeps, mem_allSpecs]
  grind

section Shed

variable (dropped : List String) (m : Assigned)

/-- The assignment without the definitions in `dropped`. -/
def left : Assigned × Nat := m.entries.foldl (keepSpecs dropped) (m, 0)

theorem getD_lookup_left (agent : String) :
    ((left dropped m).1.lookup agent).getD [] = keptSpecs dropped ((m.lookup agent).getD []) := by
  rw [left, lookup_foldl_keepSpecs]
  cases m.lookup agent with
  | none => rfl
  | some specs =>
    rw [Option.bind_some, leftFor]
    split
    · rename_i empty
      exact empty.symm
    · rfl

theorem mem_allSpecs_left {s : ExternalCheckSpec} :
    s ∈ allSpecs (left dropped m).1 ↔ s ∈ allSpecs m ∧ s.definitionID ∉ dropped := by
  have by_agent : ∀ m' : Assigned, s ∈ allSpecs m' ↔ ∃ agent, s ∈ (m'.lookup agent).getD [] := by
    intro m'
    rw [mem_allSpecs]
    refine exists_congr fun agent => ?_
    cases m'.lookup agent <;> simp
  simp only [by_agent, getD_lookup_left, keptSpecs, List.mem_filter, List.contains_eq_mem,
    Bool.not_eq_true', decide_eq_false_iff_not, exists_and_right]

theorem length_body_left {body : Bytes} (encoded : json.body (left dropped m).1 = some body) :
    (body.length : Int) ≤
      13 + weighKeys json m.entries + weigh json (keptSpecs dropped (allSpecs m)) := by
  have size := Json.length_body_le encoded
  have order := ((entries_foldl_keepSpecs dropped m).map json.entryBound).sum_eq
  have rest := bound_leftEntries_le json dropped m.entries
  simp only [Json.bound, left, allSpecs] at size order rest ⊢
  omega

theorem series_left :
    (left dropped m).2 = ((left dropped m).1.entries.map fun e => e.2.length).sum := by
  have order := ((entries_foldl_keepSpecs dropped m).map fun e => e.2.length).sum_eq
  rw [left, order, length_leftEntries, foldl_keepSpecs_series, Nat.zero_add]

theorem nonempty_left {agent : String} {specs : List ExternalCheckSpec}
    (held : (left dropped m).1.lookup agent = some specs) : specs ≠ [] := by
  rw [left, lookup_foldl_keepSpecs] at held
  obtain ⟨all, -, kept⟩ := Option.bind_eq_some_iff.mp held
  rw [leftFor] at kept
  grind

/-- With no specs left no agent is left, however long the keys are. -/
theorem length_body_nothing_left {body : Bytes} (encoded : json.body (left dropped m).1 = some body)
    (nothing : ∀ s ∈ allSpecs m, s.definitionID ∈ dropped) : body.length ≤ 13 := by
  have empty : (left dropped m).1.entries = [] := by
    refine List.eq_nil_iff_forall_not_mem.mpr fun e he => ?_
    obtain ⟨agent, specs⟩ := e
    have held := AList.mem_lookup_iff.mpr he
    obtain ⟨s, hs⟩ := List.exists_mem_of_ne_nil specs (nonempty_left dropped m held)
    have remains := (mem_allSpecs_left dropped m).mp (mem_allSpecs.mpr ⟨agent, specs, held, hs⟩)
    exact remains.2 (nothing s remains.1)
  have size := Json.length_body_le encoded
  rw [empty] at size
  simp only [Json.bound, List.map_nil, List.sum_nil] at size
  omega

end Shed

variable {m : Assigned} {defs : List Definition}

/-- Leaving out definitions until the bound is within the limit, or none is left. -/
theorem length_body_shed (alike : Alike json (allSpecs m))
    (distinct : (defs.map Definition.id).Nodup)
    (listed : ∀ s ∈ allSpecs m, s.definitionID ∈ defs.map Definition.id) {dropped : List String}
    (taken : dropped = shed (sizes json m).cost (newestFirst (sizes json m).cost defs)
      (sizes json m).size)
    {body : Bytes} (encoded : json.body (left dropped m).1 = some body) :
    (body.length : Int) ≤ maxExternalChecksBodyBytes := by
  have sound := sizes_sound alike
  obtain ⟨out, rest, order, ids, stop⟩ := shed_prefix (sizes json m).cost
    (newestFirst (sizes json m).cost defs) (sizes json m).size
  have same : dropped = out.map Definition.id := taken.trans ids
  have ids_distinct := nodup_newestFirst (sizes json m).cost distinct
  rw [order, List.map_append] at ids_distinct
  rcases stop with rfl | within
  · have nothing : ∀ s ∈ allSpecs m, s.definitionID ∈ dropped := by
      intro s hs
      obtain ⟨d, hd, id⟩ := List.mem_map.mp (listed s hs)
      have costs : ((sizes json m).cost.lookup d.id).isSome := by
        rw [sound.cost, if_neg]
        · rfl
        · exact List.ne_nil_of_mem (List.mem_filter.mpr ⟨hs, by simp [id]⟩)
      have left_out : d ∈ out := by
        have := mem_newestFirst.mpr ⟨hd, costs⟩
        rwa [order, List.append_nil] at this
      exact same ▸ List.mem_map.mpr ⟨d, left_out, id⟩
    have := length_body_nothing_left dropped m encoded nothing
    have : (13 : Int) ≤ maxExternalChecksBodyBytes := by decide
    omega
  · have costs : (out.map fun d => ((sizes json m).cost.lookup d.id).getD 0) =
        dropped.map fun id => weigh json (ofDefinition id (allSpecs m)) := by
      rw [same, List.map_map]
      refine List.map_congr_left fun d _ => ?_
      rw [sound.cost, Function.comp_apply]
      split
      · rename_i empty
        simp [empty]
      · rfl
    have size := length_body_left dropped m encoded
    have rest := weigh_keptSpecs json (same ▸ ids_distinct.of_append_left) (allSpecs m)
    rw [costs, sound.size] at within
    omega

/-- A definition that is left keeps the older ones, which come later in the list. -/
theorem keeps_older {cost : GoMap String Int} (distinct : (defs.map Definition.id).Nodup)
    {size : Int} {dropped : List String} (taken : dropped = shed cost (newestFirst cost defs) size)
    {d' : Definition} (hd : d ∈ newestFirst cost defs) (hd' : d' ∈ newestFirst cost defs)
    (older : d.newer d' = true) (stays : d.id ∉ dropped) : d'.id ∉ dropped := by
  obtain ⟨out, rest, order, ids, -⟩ := shed_prefix cost (newestFirst cost defs) size
  have sorted := newestFirst_sorted cost defs
  rw [order] at hd hd' sorted
  rw [taken, ids] at stays ⊢
  intro gone
  have first : d' ∈ out := by
    obtain ⟨e, he, same⟩ := List.mem_map.mp gone
    have known : e ∈ newestFirst cost defs := order ▸ List.mem_append_left _ he
    have unique :=
      List.inj_on_of_nodup_map (nodup_newestFirst cost distinct) known (order ▸ hd') same
    exact unique ▸ he
  have later : d ∈ rest := by
    rcases List.mem_append.mp hd with early | later
    · exact absurd (List.mem_map_of_mem early) stays
    · exact later
  have not_newer := (List.pairwise_append.mp sorted).2.2 d' first d later
  rw [older] at not_newer
  cases not_newer

theorem fits_unchanged (nonempty : ∀ agent specs, m.lookup agent = some specs → specs ≠ [])
    (alike : Alike json (allSpecs m)) (small : (sizes json m).size ≤ maxExternalChecksBodyBytes)
    (series : Nat) : Fits json m defs (m, series) where
  encodes := isSome_body
  within body encoded := by
    have size : (body.length : Int) ≤ 13 + json.bound m.entries := Json.length_body_le encoded
    have bound := (sizes_sound alike).size
    rw [bound_eq] at size
    simp only [allSpecs] at bound
    omega
  whole _ := .inl fun _ => rfl
  older _ _ _ _ _ keeps _ := keeps
  nonempty := nonempty
  untouched _ := rfl
  counted changed := absurd rfl changed

theorem mem_newestFirst_of_keeps (alike : Alike json (allSpecs m)) (hd : d ∈ defs)
    (keeps : Keeps m d.id) : d ∈ newestFirst (sizes json m).cost defs := by
  obtain ⟨s, hs, id⟩ := keeps_iff.mp keeps
  refine mem_newestFirst.mpr ⟨hd, ?_⟩
  rw [(sizes_sound alike).cost, if_neg]
  · rfl
  · exact List.ne_nil_of_mem (List.mem_filter.mpr ⟨hs, by simp [id]⟩)

theorem fits_left (alike : Alike json (allSpecs m)) (distinct : (defs.map Definition.id).Nodup)
    (listed : ∀ s ∈ allSpecs m, s.definitionID ∈ defs.map Definition.id)
    (large : ¬ (sizes json m).size ≤ maxExternalChecksBodyBytes) {dropped : List String}
    (taken : dropped = shed (sizes json m).cost (newestFirst (sizes json m).cost defs)
      (sizes json m).size) : Fits json m defs (left dropped m) where
  encodes each := isSome_body fun s hs => each s ((mem_allSpecs_left dropped m).mp hs).1
  within _ := length_body_shed alike distinct listed taken
  whole id := by
    by_cases gone : id ∈ dropped
    · refine .inr fun agent => ?_
      rw [specsOf, getD_lookup_left]
      refine List.filter_eq_nil_iff.mpr fun s hs same => ?_
      have := (List.mem_filter.mp hs).2
      simp_all
    · refine .inl fun agent => ?_
      rw [specsOf, specsOf, getD_lookup_left, ofDefinition, keptSpecs, List.filter_filter]
      refine List.filter_congr fun s _ => ?_
      grind
  older d hd d' hd' keeps keeps' older := by
    obtain ⟨s, hs, id⟩ := keeps_iff.mp keeps
    obtain ⟨s', hs', id'⟩ := keeps_iff.mp keeps'
    obtain ⟨stored, stays⟩ := (mem_allSpecs_left dropped m).mp hs
    have stays' := keeps_older distinct taken
      (mem_newestFirst_of_keeps alike hd (keeps_iff.mpr ⟨s, stored, id⟩))
      (mem_newestFirst_of_keeps alike hd' keeps') older (id ▸ stays)
    exact keeps_iff.mpr ⟨s', (mem_allSpecs_left dropped m).mpr ⟨hs', id' ▸ stays'⟩, id'⟩
  nonempty _ _ := nonempty_left dropped m
  untouched fits := absurd fits large
  counted _ := series_left dropped m

/-- The assignment that is sent fits the controller's limit. -/
theorem fitBodyLimit_fits
    (nonempty : ∀ agent specs, m.lookup agent = some specs → specs ≠ [])
    (alike : Alike json (allSpecs m)) (distinct : (defs.map Definition.id).Nodup)
    (listed : ∀ s ∈ allSpecs m, s.definitionID ∈ defs.map Definition.id) (series : Nat) :
    Fits json m defs (fitBodyLimit json m defs series) := by
  rw [fitBodyLimit]
  split
  · rename_i small
    exact fits_unchanged nonempty alike small series
  · rename_i large
    exact fits_left alike distinct listed large rfl

/-- Every list is non-empty and holds the specs on file for some of the definitions. -/
def Drawn (defs : List Definition) (specs : GoMap String ExternalCheckSpec) (m : Assigned) : Prop :=
  ∀ agent l, m.lookup agent = some l → l ≠ [] ∧ ∀ s ∈ l, ∃ d ∈ defs, specs.lookup d.id = some s

theorem Drawn.assignTo {specs : GoMap String ExternalCheckSpec} (drawn : Drawn defs specs m)
    (agentIDByNode : GoMap String String) {e : Sigma fun _ : String => Assignment}
    (listed : ∀ s ∈ e.2.specs, ∃ d ∈ defs, s = d.assignedSpec) :
    Drawn defs specs (assignTo agentIDByNode specs m e) := by
  rw [Assign.assignTo]
  split
  · exact drawn
  · simp only
    split
    · exact drawn
    · rename_i some_spec
      intro agent l held
      rcases GoMap.cases_insert held with ⟨-, rfl⟩ | ⟨-, earlier⟩
      · refine ⟨by simpa using some_spec, fun s hs => ?_⟩
        obtain ⟨filed, member, found⟩ := List.mem_filterMap.mp hs
        obtain ⟨d, hd, rfl⟩ := listed filed member
        exact ⟨d, hd, found⟩
      · exact drawn agent l earlier

/-- What the reconciler pushes to the controller is a fit of the assignment that it built, when
the specs it has made are on file under their definitions. -/
theorem desired_fits {specs : GoMap String ExternalCheckSpec}
    (own : ∀ id spec, specs.lookup id = some spec → spec.definitionID = id)
    (distinct : (defs.map Definition.id).Nodup) {topo : Topology} {out : Assigned × Nat}
    (ok : desired json defs specs topo = .ok out) :
    ∃ assignments series m, assignAgents defs (agentRefs topo).1 = .ok (assignments, series) ∧
      m = assignments.entries.foldl (assignTo (agentRefs topo).2 specs) ∅ ∧
      Drawn defs specs m ∧ Fits json m defs out := by
  rw [desired] at ok
  simp only at ok
  split at ok <;> cases ok
  rename_i assignments series assigned
  set m := assignments.entries.foldl (assignTo (agentRefs topo).2 specs) ∅ with built
  have drawn : Drawn defs specs m := by
    refine foldl_invariant (by simp [Drawn]) fun m e he drawn => drawn.assignTo _ ?_
    have held : assignments.lookup e.1 = some e.2 := AList.mem_lookup_iff.mpr he
    exact fun s hs => mem_specs_assignAgents assigned held hs
  -- One definition has one spec, so specs with one definition are the same.
  have filed : ∀ s ∈ allSpecs m,
      s.definitionID ∈ defs.map Definition.id ∧ specs.lookup s.definitionID = some s := by
    intro s hs
    obtain ⟨agent, l, held, member⟩ := mem_allSpecs.mp hs
    obtain ⟨d, hd, found⟩ := (drawn agent l held).2 s member
    have id := own d.id s found
    exact ⟨List.mem_map.mpr ⟨d, hd, id.symm⟩, id ▸ found⟩
  have alike : Alike json (allSpecs m) := by
    intro s hs s' hs' same
    have found := (filed s hs).2
    rw [same, (filed s' hs').2] at found
    grind
  refine ⟨assignments, series, m, assigned, built, drawn, ?_⟩
  rw [fitBodyLimit]
  split
  · rename_i small
    exact fits_unchanged (fun agent l held => (drawn agent l held).1) alike small series
  · rename_i large
    exact fits_left alike distinct (fun s hs => (filed s hs).1) large rfl

def web : ExternalCheckSpec := ⟨"d1", ⟨"web", "host", "10.0.0.1", 80⟩, "tcp", 30, 5, ""⟩

def db : ExternalCheckSpec := ⟨"d2", ⟨"db", "host", "10.0.0.2", 5432⟩, "tcp", 30, 5, ""⟩

def twoDefinitions : List Definition :=
  [⟨"d1", "web", .all, "tcp", "10.0.0.1:80", true, 7⟩,
    ⟨"d2", "db", .all, "tcp", "10.0.0.2:5432", true, 8⟩]

def bytesOf (s : ExternalCheckSpec) : Nat := if s = db then 9000000 else 100

/-- The specs of the newer definition take 9 MB each. -/
def bulky : Json where
  quote s := ascii s
  marshal s := some (List.replicate (bytesOf s) 0)

theorem size_bulky : bulky.size = fun s => (bytesOf s : Int) :=
  funext fun s => by simp [Json.size, bulky]

def twoAgents : Assigned := AList.insert "a2" [web, db] (AList.insert "a1" [web, db] ∅)

/-- The newer definition is left out, the older one is kept. -/
theorem specsOf_fitBodyLimit {json : Json} (quote : json.quote = ascii)
    (size : json.size = fun s => (bytesOf s : Int)) :
    specsOf (fitBodyLimit json twoAgents twoDefinitions 4).1 "a1" "d1" = [web] ∧
      specsOf (fitBodyLimit json twoAgents twoDefinitions 4).1 "a1" "d2" = [] := by
  have entries : twoAgents.entries = [⟨"a2", [web, db]⟩, ⟨"a1", [web, db]⟩] := rfl
  simp only [fitBodyLimit, sizes, entries, List.foldl_cons, List.foldl_nil, Sizes.addAgent,
    Sizes.addSpec, quote, size]
  decide

theorem fitBodyLimit_fits_twoAgents :
    let out := fitBodyLimit bulky twoAgents twoDefinitions 4
    Fits bulky twoAgents twoDefinitions out ∧ specsOf out.1 "a1" "d1" = [web] ∧
      specsOf out.1 "a1" "d2" = [] := by
  have alike : Alike bulky (allSpecs twoAgents) := by
    intro s hs s' hs' same
    have only : ∀ s ∈ allSpecs twoAgents, ∀ s' ∈ allSpecs twoAgents,
      s.definitionID = s'.definitionID → s = s' := by decide
    rw [only s hs s' hs' same]
  exact ⟨fitBodyLimit_fits (GoMap.forall_lookup (by decide)) alike (by decide) (by decide) 4,
    specsOf_fitBodyLimit rfl size_bulky⟩

def twoSpecs : GoMap String ExternalCheckSpec := AList.insert "d1" web (AList.insert "d2" db ∅)

theorem desired_fits_twoAgents :
    let topo : Topology := ⟨[⟨"a1", "n1", "z1", []⟩, ⟨"a2", "n2", "z1", []⟩]⟩
    ∃ m out, desired bulky twoDefinitions twoSpecs topo = .ok out ∧
      Drawn twoDefinitions twoSpecs m ∧ Fits bulky m twoDefinitions out ∧
      specsOf out.1 "a1" "d1" = [web] ∧ specsOf out.1 "a1" "d2" = [] := by
  intro topo
  have own : ∀ id spec, twoSpecs.lookup id = some spec → spec.definitionID = id :=
    GoMap.forall_lookup (by decide)
  have ok : ∀ json, desired json twoDefinitions twoSpecs topo =
    .ok (fitBodyLimit json twoAgents twoDefinitions 4) := fun _ => rfl
  obtain ⟨-, -, m, -, -, drawn, fits⟩ := desired_fits own (by decide) (ok bulky)
  exact ⟨m, _, ok bulky, drawn, fits, specsOf_fitBodyLimit rfl size_bulky⟩

end Kconmon.Console.Assign
