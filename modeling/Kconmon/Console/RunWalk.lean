import Kconmon.Console.RunListing
import Kconmon.Console.RunStoreRefinement
import Kconmon.Lib.Paging
import Kconmon.Lib.Tables

/-!
# What a walk over the runs returns

A walk always comes to its end, and it returns no run twice: the run that a cursor names is
older than the one before. It misses nothing as long as that run, at the next read, is gone from
the store or still admitted by the filter. A run that stays in the store and is no longer admitted,
such as a pending one that has been started, ends the walk early.
-/
namespace Kconmon.Console.RunStore
open Lib
open Checks (RunStatus)
open Cursor (cursorSep urlAlphabet)

/-! ## Cursors -/

/-- An instant whose text can be read back from a cursor. -/
def CursorText.Instant (text : CursorText) (t : Int) : Prop :=
  cursorSep ∉ text.format t ∧ (text.parse (text.format t)).isSome

theorem encodeRunCursor_ne_nil (text : CursorText) (t : Int) (id : Bytes) :
    encodeRunCursor text t id ≠ [] := by
  intro empty
  have back := urlAlphabet.decode_encode (text.format t ++ cursorSep :: id)
  rw [show urlAlphabet.encode _ = [] from empty] at back
  simp [Base64.Alphabet.decode, Base64.bytes] at back

theorem decodeRunCursor_encodeRunCursor {text : CursorText} {t : Int} {id : Bytes}
    (instant : text.Instant t) (uuid : text.isUUID id = true) :
    ∃ ts, decodeRunCursor text (encodeRunCursor text t id) = .ok (some (ts, id)) := by
  obtain ⟨plain, parsed⟩ := instant
  obtain ⟨ts, parse⟩ := Option.isSome_iff_exists.mp parsed
  have found : (text.format t ++ cursorSep :: id).idxOf? cursorSep =
      some (text.format t).length := by
    refine List.idxOf?_eq_some_iff.mpr ⟨by simp, by simp, fun j hj same => plain ?_⟩
    rw [List.getElem_append_left hj] at same
    exact same ▸ List.getElem_mem hj
  refine ⟨ts, ?_⟩
  rw [decodeRunCursor, decodeUUIDCursor, if_neg (encodeRunCursor_ne_nil text t id), encodeRunCursor,
    encodeUUIDCursor, urlAlphabet.decode_encode]
  simp [decodeRawUUID, found, parse, uuid, Except.map]

/-- The run that a cursor names. -/
def cursorKey (text : CursorText) (cursor : Bytes) : Option Bytes :=
  match decodeRunCursor text cursor with
  | .ok named => named.map Prod.snd
  | .error _ => none

@[simp] theorem cursorKey_nil (text : CursorText) : cursorKey text [] = none := rfl

theorem idBytes_injective : Function.Injective idBytes := by
  intro a b same
  refine String.toByteArray_inj.mp (ByteArray.ext (Array.ext' same))

def TypedRun.key (r : TypedRun) : Bytes := idBytes r.run.id

/-! ## The ring -/

/-- The ids of the ring are those of the runs on file, and each run is filed under its own. -/
structure MemoryStore.Sound (m : MemoryStore) : Prop where
  distinct : m.order.Nodup
  filed : ∀ id, id ∈ m.order ↔ (m.runs.lookup id).isSome
  own : ∀ id e, m.runs.lookup id = some e → e.run.id = id

/-- What never changes of a run. -/
def Entry.origin (e : Entry) : String × Int := (e.run.id, e.run.createdAt)

/-- The same runs, whatever has become of them. -/
structure SameRuns (m m' : MemoryStore) : Prop where
  order : m'.order = m.order
  origin : ∀ id, (m'.runs.lookup id).map Entry.origin = (m.runs.lookup id).map Entry.origin

theorem SameRuns.refl (m : MemoryStore) : SameRuns m m := ⟨rfl, fun _ => rfl⟩

variable {m : MemoryStore}

theorem SameRuns.trans {m' m'' : MemoryStore} (first : SameRuns m m') (second : SameRuns m' m'') :
    SameRuns m m'' :=
  ⟨second.order.trans first.order, fun id => (second.origin id).trans (first.origin id)⟩

variable {id : String}

theorem sameRuns_insert {e e' : Entry} (held : m.runs.lookup id = some e)
    (same : e'.origin = e.origin) : SameRuns m { m with runs := AList.insert id e' m.runs } := by
  refine ⟨rfl, fun id' => ?_⟩
  rw [GoMap.lookup_insert_if]
  split
  · rename_i here
    rw [here, held, Option.map_some, Option.map_some, same]
  · rfl

theorem sameRuns_update (id : String) (guard : Run → Bool) {change : Run → Run}
    (keeps : ∀ run, (change run).id = run.id ∧ (change run).createdAt = run.createdAt)
    (unmatched : Reply) : SameRuns m (m.update id guard change unmatched).1 := by
  rw [MemoryStore.update]
  split
  · exact .refl m
  · rename_i e held
    split
    · exact sameRuns_insert held (by simp [Entry.origin, keeps])
    · exact .refl m

theorem sameRuns_reapNext (now : Int) (budget : ReapBudget) (limit : Int) (acc : MemoryStore × Nat)
    (id : String) : SameRuns acc.1 (MemoryStore.reapNext now budget limit acc id).1 := by
  rw [MemoryStore.reapNext]
  split
  · exact .refl _
  · split
    · exact .refl _
    · rename_i e held
      split
      · exact sameRuns_insert held rfl
      · exact .refl _

theorem Entry.run_upsert (now : Int) (i : RunResultInput) (e : Entry) :
    (e.upsert now i).run = e.run := by
  unfold Entry.upsert
  grind

/-- A call that creates no run leaves the runs that there are. -/
theorem sameRuns_call (env : Env) (m : MemoryStore) {e : Event} (none_new : e.newIDs = []) :
    SameRuns m (m.call env e.now e.call).1 := by
  obtain ⟨now, call, checkType⟩ := e
  cases call with
  | createRun => simp [Event.newIDs] at none_new
  | markRunStarted id =>
    rw [MemoryStore.call, markRunStarted_eq]
    exact sameRuns_update _ _ (by simp) _
  | finishRun id status pairOK pairFailed =>
    rw [MemoryStore.call, finishRun_eq]
    exact sameRuns_update _ _ (by simp) _
  | abandonRun id status =>
    rw [MemoryStore.call, abandonRun_eq]
    exact sameRuns_update _ _ (by simp) _
  | upsertRunResult i =>
    simp only [MemoryStore.call, MemoryStore.upsertRunResult]
    split
    · exact .refl m
    · rename_i e held
      exact sameRuns_insert held (by rw [Entry.origin, Entry.run_upsert, Entry.origin])
  | upsertPathSnapshot i =>
    simp only [MemoryStore.call, MemoryStore.upsertPathSnapshot]
    split
    · exact .refl m
    · split
      · exact ⟨rfl, fun _ => rfl⟩
      · split <;> exact ⟨rfl, fun _ => rfl⟩
  | reapStuckRuns budget limit =>
    exact foldl_invariant (I := fun acc : MemoryStore × Nat => SameRuns m acc.1) (.refl m)
      fun acc id _ same => same.trans (sameRuns_reapNext now budget limit acc id)
  | activeRunsByInitiator => exact .refl m

theorem SameRuns.sound {m' : MemoryStore} (same : SameRuns m m') (sound : m.Sound) : m'.Sound where
  distinct := same.order ▸ sound.distinct
  filed id := by
    have both := congrArg Option.isSome (same.origin id)
    simp only [Option.isSome_map] at both
    rw [same.order, sound.filed, both]
  own id e held := by
    have origin := same.origin id
    rw [held, Option.map_some, eq_comm, Option.map_eq_some_iff] at origin
    obtain ⟨before, there, origin⟩ := origin
    have named := congrArg Prod.fst origin
    simp only [Entry.origin] at named
    rw [← named]
    exact sound.own id before there

def newRun (now : Int) (id : String) (duration : Int) (initiatorKind initiatorID : String)
    (pairTotal : Int) : Run :=
  { id, createdAt := now, duration, initiatorKind, initiatorID, pairTotal }

/-- A new run goes to the end of the ring. -/
theorem MemoryStore.Sound.append (sound : m.Sound) (run : Run) (fresh : run.id ∉ m.order) :
    MemoryStore.Sound
      { m with order := m.order ++ [run.id], runs := AList.insert run.id { run } m.runs } where
  distinct := List.nodup_append.mpr ⟨sound.distinct, List.nodup_singleton _, by grind⟩
  filed id := by
    simp only [List.mem_append, List.mem_singleton, GoMap.lookup_insert_if]
    have before := sound.filed id
    grind
  own id e held := by
    rcases GoMap.cases_insert held with ⟨rfl, rfl⟩ | ⟨-, before⟩
    · rfl
    · exact sound.own id e before

theorem MemoryStore.Sound.evict (sound : m.Sound) {old : String} {order : List String}
    (first : m.order = old :: order) :
    MemoryStore.Sound { m with order, runs := m.runs.erase old } where
  distinct := (List.nodup_cons.mp (first ▸ sound.distinct)).2
  filed id := by
    have gone := (List.nodup_cons.mp (first ▸ sound.distinct)).1
    have before := sound.filed id
    rw [first, List.mem_cons] at before
    rw [GoMap.lookup_erase_if]
    grind
  own id e held := by
    rw [GoMap.lookup_erase_if] at held
    exact sound.own id e (by grind)

theorem MemoryStore.Sound.unfiled (sound : m.Sound) (absent : id ∉ m.order) :
    m.runs.lookup id = none := Option.not_isSome_iff_eq_none.mp (mt (sound.filed id).mpr absent)

/-- A new run is filed, and a full ring lets its oldest run go for it. -/
theorem createRun_cases (now : Int) (duration : Int) (kind initiator : String) (pairTotal : Int)
    (unfiled : m.runs.lookup id = none) : (∃ old order, m.order ++ [id] = old :: order ∧
      (m.createRun now id duration kind initiator pairTotal).1 =
        { m with order, runs := (AList.insert id
          { run := newRun now id duration kind initiator pairTotal } m.runs).erase old }) ∨
      (m.createRun now id duration kind initiator pairTotal).1 =
        { m with
          order := m.order ++ [id]
          runs := AList.insert id
            { run := newRun now id duration kind initiator pairTotal } m.runs } := by
  rw [MemoryStore.createRun, unfiled, if_neg (by simp)]
  dsimp only
  split
  · cases first : m.order ++ [id] with
    | nil => simp at first
    | cons old order => exact .inl ⟨old, order, rfl, rfl⟩
  · exact .inr rfl

theorem MemoryStore.Sound.createRun (sound : m.Sound) (now : Int) (id : String) (duration : Int)
    (kind initiator : String) (pairTotal : Int) :
    (m.createRun now id duration kind initiator pairTotal).1.Sound := by
  by_cases present : id ∈ m.order
  · rw [MemoryStore.createRun, if_pos ((sound.filed id).mp present)]
    exact sound
  · have appended := sound.append (newRun now id duration kind initiator pairTotal) present
    rcases createRun_cases now duration kind initiator pairTotal (sound.unfiled present) with
      ⟨old, order, first, created⟩ | created
    · rw [created]
      exact appended.evict first
    · rw [created]
      exact appended

/-- The ring is sound after any calls. -/
theorem sound_calls (env : Env) (events : List Event) :
    (events.foldl (fun m e => (MemoryStore.call env e.now m e.call).1) {}).Sound := by
  refine foldl_invariant ⟨List.nodup_nil, by simp, by simp⟩ fun m e _ sound => ?_
  by_cases none_new : e.newIDs = []
  · exact (sameRuns_call env m none_new).sound sound
  · obtain ⟨now, call, checkType⟩ := e
    cases call with
    | createRun id duration kind initiator pairTotal deadlineAt =>
      exact sound.createRun now id duration kind initiator pairTotal
    | _ => simp [Event.newIDs] at none_new

/-- The ring holds the last runs of the history, and their cursors can be read back. -/
structure Ring (text : CursorText) (history : List String) (s : RunList) : Prop where
  sound : s.store.Sound
  part : s.store.order <:+ history
  readable : ∀ id e, s.store.runs.lookup id = some e →
    text.Instant e.run.createdAt ∧ text.isUUID (idBytes id) = true

/-- The event is at an instant that a cursor can hold, and creates runs under UUIDs only. -/
def Event.Readable (text : CursorText) (e : Event) : Prop :=
  text.Instant e.now ∧ ∀ id ∈ e.newIDs, text.isUUID (idBytes id) = true

section
variable {text : CursorText} {history : List String} {s : RunList}

section
variable (ring : Ring text history s)
include ring

theorem Ring.sameRuns {t : RunList} (same : SameRuns s.store t.store) : Ring text history t where
  sound := same.sound ring.sound
  part := same.order ▸ ring.part
  readable id e held := by
    have origin := same.origin id
    rw [held, Option.map_some, eq_comm, Option.map_eq_some_iff] at origin
    obtain ⟨before, there, origin⟩ := origin
    have created : before.run.createdAt = e.run.createdAt := congrArg Prod.snd origin
    exact created ▸ ring.readable id before there

theorem Ring.create {now duration pairTotal : Int}
    {kind initiator : String} (instant : text.Instant now) (uuid : text.isUUID (idBytes id) = true)
    (fresh : id ∉ history) (checkTypes : GoMap String String) : Ring text (history ++ [id])
      ⟨(s.store.createRun now id duration kind initiator pairTotal).1, checkTypes⟩ := by
  have absent : id ∉ s.store.order := fun listed => fresh (ring.part.subset listed)
  have readable : ∀ id' e, (AList.insert id
      { run := newRun now id duration kind initiator pairTotal } s.store.runs).lookup id' = some e →
        text.Instant e.run.createdAt ∧ text.isUUID (idBytes id') = true := by
    intro id' e held
    rcases GoMap.cases_insert held with ⟨rfl, rfl⟩ | ⟨-, before⟩
    · exact ⟨instant, uuid⟩
    · exact ring.readable id' e before
  have part : s.store.order ++ [id] <:+ history ++ [id] := by
    obtain ⟨before, rfl⟩ := ring.part
    exact ⟨before, by simp⟩
  have sound := ring.sound.createRun now id duration kind initiator pairTotal
  rcases createRun_cases now duration kind initiator pairTotal (ring.sound.unfiled absent) with
    ⟨old, order, first, created⟩ | created
  · rw [created] at sound ⊢
    refine ⟨sound, (List.suffix_cons old order).trans (first ▸ part), fun id' e held => ?_⟩
    rw [GoMap.lookup_erase_if, Option.ite_none_left_eq_some] at held
    exact readable id' e held.2
  · rw [created] at sound ⊢
    exact ⟨sound, part, readable⟩

theorem Ring.apply (env : Env) {e : Event} (readable : e.Readable text)
    (fresh : (history ++ e.newIDs).Nodup) : Ring text (history ++ e.newIDs) (s.apply env e) := by
  by_cases none_new : e.newIDs = []
  · rw [none_new, List.append_nil]
    exact ring.sameRuns (sameRuns_call env s.store none_new)
  · obtain ⟨now, call, checkType⟩ := e
    cases call with
    | createRun id duration kind initiator pairTotal deadlineAt =>
      have absent : id ∉ history := by
        have apart := (List.nodup_append.mp fresh).2.2
        exact fun listed => apart id listed id (by simp [Event.newIDs]) rfl
      exact ring.create readable.1 (readable.2 id (by simp [Event.newIDs])) absent _
    | _ => simp [Event.newIDs] at none_new

theorem Ring.events (env : Env) {events : List Event}
    (readable : ∀ e ∈ events, e.Readable text)
    (fresh : (history ++ events.flatMap Event.newIDs).Nodup) :
    Ring text (history ++ events.flatMap Event.newIDs) (events.foldl (RunList.apply env) s) := by
  induction events generalizing history s with
  | nil => simpa using ring
  | cons e events ih =>
    rw [List.flatMap_cons, ← List.append_assoc] at fresh ⊢
    have next := ring.apply env (readable e (by simp)) fresh.of_append_left
    exact ih next (fun e' listed => readable e' (List.mem_cons_of_mem _ listed)) fresh

end

end

/-! ## One read -/

namespace RunList

def keys (s : RunList) (f : RunFilter) : List Bytes := (s.filtered f).map TypedRun.key

/-- The run is in the store and matches the filter. -/
def Lists (s : RunList) (f : RunFilter) (id : String) : Prop :=
  ∃ r, s.find id = some r ∧ f.admits r = true

instance (s : RunList) (f : RunFilter) (id : String) : Decidable (s.Lists f id) :=
  decidable_of_iff ((s.find id).any f.admits = true) (Option.any_eq_true _ _)

end RunList

/-- The place of a run in the history. -/
def age (history : List String) (key : Bytes) : Nat := history.findIdx (idBytes · = key)

theorem age_idBytes (history : List String) (id : String) :
    age history (idBytes id) = history.idxOf id := by
  simp only [age, List.idxOf, idBytes_injective.eq_iff]
  rfl

section
variable {text : CursorText} {env : Env} {history : List String} {s : RunList} {f : RunFilter}

section
variable (ring : Ring text history s)
include ring

theorem Ring.id_of_find {r : TypedRun} (found : s.find id = some r) : r.run.id = id := by
  obtain ⟨e, held, rfl⟩ := Option.map_eq_some_iff.mp found
  exact ring.sound.own id e held

theorem Ring.mem_filtered {r : TypedRun} :
    r ∈ s.filtered f ↔ s.find r.run.id = some r ∧ f.admits r = true := by
  simp only [RunList.filtered, List.mem_filterMap, List.mem_reverse, Option.filter_eq_some_iff]
  constructor
  · rintro ⟨id, -, found, admitted⟩
    obtain rfl := ring.id_of_find found
    exact ⟨found, admitted⟩
  · rintro ⟨found, admitted⟩
    obtain ⟨e, held, -⟩ := Option.map_eq_some_iff.mp found
    exact ⟨r.run.id, (ring.sound.filed _).mpr (by simp [held]), found, admitted⟩

theorem Ring.mem_keys : idBytes id ∈ s.keys f ↔ s.Lists f id := by
  simp only [RunList.keys, List.mem_map, ring.mem_filtered, TypedRun.key, idBytes_injective.eq_iff]
  constructor
  · rintro ⟨r, ⟨found, admitted⟩, rfl⟩
    exact ⟨r, found, admitted⟩
  · rintro ⟨r, found, admitted⟩
    obtain rfl := ring.id_of_find found
    exact ⟨r, ⟨found, admitted⟩, rfl⟩

theorem Ring.mem_order (listed : s.Lists f id) : id ∈ s.store.order := by
  obtain ⟨r, found, -⟩ := listed
  obtain ⟨e, held, -⟩ := Option.map_eq_some_iff.mp found
  exact (ring.sound.filed id).mpr (by simp [held])

/-- The runs are listed newest first. -/
theorem Ring.falling {new : List String}
    (distinct : (history ++ new).Nodup) : Paging.Falling (age (history ++ new)) (s.keys f) := by
  have back : ∀ id r, (s.find id).filter f.admits = some r → r.run.id = id := fun id r found =>
    ring.id_of_find (Option.filter_eq_some_iff.mp found).1
  have part : ((s.filtered f).map fun r => r.run.id).Sublist (history ++ new).reverse := by
    have listed := map_filterMap_sublist back s.store.order.reverse
    have within : s.store.order.Sublist (history ++ new) :=
      ring.part.sublist.trans (List.sublist_append_left history new)
    exact listed.trans within.reverse
  have falling := Paging.falling_of_sublist distinct part
  rw [Paging.Falling, List.pairwise_map] at falling
  rw [RunList.keys, Paging.Falling, List.pairwise_map]
  simpa only [TypedRun.key, age_idBytes] using falling

theorem Ring.readable_of_mem {r : TypedRun}
    (listed : r ∈ s.filtered f) : text.Instant r.run.createdAt ∧ text.isUUID r.key = true := by
  obtain ⟨found, -⟩ := ring.mem_filtered.mp listed
  obtain ⟨e, held, same⟩ := Option.map_eq_some_iff.mp found
  have read := ring.readable r.run.id e held
  rwa [show e.run = r.run from congrArg TypedRun.run same] at read

end

theorem clampListRunsLimit_pos (limit : Int) : 0 < clampListRunsLimit limit := by
  simp only [clampListRunsLimit, listRunsDefaultLimit, listRunsMinLimit, listRunsMaxLimit]
  grind

/-- The cursor is empty or names a run of the history. -/
def Cites (text : CursorText) (history : List String) (cursor : Bytes) : Prop :=
  decodeRunCursor text cursor = .ok none ∨
    ∃ id ∈ history, ∃ ts, decodeRunCursor text cursor = .ok (some (ts, idBytes id))

/-- What a page is, and that its next cursor is empty unless it is full. -/
structure Continues (text : CursorText) (limit : Nat) (keys : List Bytes) (page : RunPage) :
    Prop where
  runs : page.runs.map TypedRun.key = keys.take limit
  short : page.nextCursor = [] → page.runs.length < limit
  full : page.nextCursor ≠ [] → page.runs.length = limit ∧ ∃ last ts,
    page.runs.getLast? = some last ∧
      decodeRunCursor text page.nextCursor = .ok (some (ts, last.key))

theorem pageFrom_continues {runs : List TypedRun} {limit : Nat} (positive : 0 < limit)
    (readable : ∀ r ∈ runs, text.Instant r.run.createdAt ∧ text.isUUID r.key = true) (start : Nat) :
    Continues text limit ((runs.map TypedRun.key).drop start)
      (RunList.pageFrom text runs limit start) := by
  have clamp : runs.drop (min start runs.length) = runs.drop start := by
    rcases Nat.le_total start runs.length with within | beyond
    · rw [Nat.min_eq_left within]
    · rw [Nat.min_eq_right beyond, List.drop_length, List.drop_of_length_le beyond]
  rw [RunList.pageFrom, clamp]
  split
  · rename_i full
    have some_run : (runs.drop start).take limit ≠ [] := by
      intro empty
      rw [empty] at full
      exact positive.ne full
    obtain ⟨last, ends⟩ := Option.isSome_iff_exists.mp (List.getLast?_isSome.mpr some_run)
    have listed : last ∈ runs :=
      List.mem_of_mem_drop (List.mem_of_mem_take (List.mem_of_getLast? ends))
    obtain ⟨instant, uuid⟩ := readable last listed
    obtain ⟨ts, decoded⟩ := decodeRunCursor_encodeRunCursor instant uuid
    have given : encodeRunCursor text last.run.createdAt (idBytes last.run.id) ≠ [] :=
      encodeRunCursor_ne_nil _ _ _
    rw [ends]
    exact ⟨by simp, fun empty => absurd empty given, fun _ => ⟨full, last, ts, ends, decoded⟩⟩
  · rename_i differs
    have short : ((runs.drop start).take limit).length < limit :=
      lt_of_le_of_ne (List.length_take_le ..) differs
    exact ⟨by simp, fun _ => short, fun given => absurd rfl given⟩

theorem Ring.listRuns (ring : Ring text history s) (f : RunFilter) {cursor : Bytes}
    (cites : Cites text history cursor) : ∃ page, s.listRuns text { f with cursor } = .ok page ∧
      Continues text (clampListRunsLimit f.limit)
        (Paging.rest (cursorKey text cursor) (s.keys f)) page := by
  have positive := clampListRunsLimit_pos f.limit
  have same : s.filtered { f with cursor } = s.filtered f := rfl
  have readable : ∀ r ∈ s.filtered f, text.Instant r.run.createdAt ∧ text.isUUID r.key = true :=
    fun r => ring.readable_of_mem
  simp only [RunList.listRuns, same]
  rcases cites with first | ⟨id, -, ts, named⟩
  · rw [first, cursorKey, first]
    exact ⟨_, rfl, pageFrom_continues positive readable 0⟩
  · rw [named, cursorKey, named]
    simp only [Option.map_some, Paging.rest_some]
    have search : (s.filtered f).findIdx? (fun r => idBytes r.run.id = idBytes id) =
        (s.keys f).findIdx? (· = idBytes id) := by
      rw [RunList.keys, List.findIdx?_map]
      rfl
    rw [search]
    cases found : (s.keys f).findIdx? (· = idBytes id) with
    | none =>
      rw [Paging.after_of_findIdx?_eq_none found]
      exact ⟨_, rfl, by simp, fun _ => positive, fun given => absurd rfl given⟩
    | some i =>
      rw [Paging.after_of_findIdx?_eq_some found]
      exact ⟨_, rfl, pageFrom_continues positive readable (i + 1)⟩

end

/-! ## The whole walk -/

/-- At this read the run that the cursor names is gone from the store, or is still listed, or no
older run is listed. -/
def Read.Current (text : CursorText) (f : RunFilter) (r : Read) : Prop :=
  ∀ id, cursorKey text r.cursor = some (idBytes id) → id ∉ r.list.store.order ∨ r.list.Lists f id ∨
      ∀ id', r.list.Lists f id' → r.list.store.order.idxOf id ≤ r.list.store.order.idxOf id'

/-- The read as one of a listing of keys. -/
def Read.keyed (text : CursorText) (f : RunFilter) (r : Read) : Option Bytes × List Bytes :=
  (cursorKey text r.cursor, r.list.keys f)

/-- A read of a ring with this history so far. -/
structure Read.Sound (text : CursorText) (f : RunFilter) (history new : List String) (r : Read) :
    Prop where
  ring : ∃ past later, past ++ later = history ++ new ∧ Ring text past r.list ∧
    Cites text past r.cursor
  runs : r.runs.map TypedRun.key = Paging.page (clampListRunsLimit f.limit) (r.keyed text f)

section
variable {text : CursorText} {env : Env} {history : List String} {s : RunList} {f : RunFilter}
  {cursor : Bytes} {events : List (List Event)}

theorem Cites.mono (cites : Cites text history cursor) (new : List String) :
    Cites text (history ++ new) cursor :=
  cites.imp_right fun ⟨id, listed, rest⟩ => ⟨id, List.mem_append_left new listed, rest⟩

variable {page : RunPage}

/-- The next cursor names the last run of its page. -/
theorem Ring.cites_next (ring : Ring text history s) {keys : List Bytes}
    (part : keys.Sublist (s.keys f)) {limit : Nat} (continues : Continues text limit keys page)
    (more : page.nextCursor ≠ []) : ∃ key, cursorKey text page.nextCursor = some key ∧
      (keys.take limit).getLast? = some key ∧ Cites text history page.nextCursor := by
  obtain ⟨-, last, ts, ends, decoded⟩ := continues.full more
  have runs : (keys.take limit).getLast? = some last.key := by
    rw [← continues.runs, List.getLast?_map, ends, Option.map_some]
  have listed : last.key ∈ s.keys f :=
    part.subset (List.mem_of_mem_take (List.mem_of_getLast? runs))
  have known : last.run.id ∈ history := ring.part.subset (ring.mem_order (ring.mem_keys.mp listed))
  refine ⟨last.key, ?_, runs, .inr ⟨last.run.id, known, ts, decoded⟩⟩
  rw [cursorKey, decoded]
  rfl

theorem Ring.read_sound (ring : Ring text history s) (cites : Cites text history cursor)
    (continues : Continues text (clampListRunsLimit f.limit)
      (Paging.rest (cursorKey text cursor) (s.keys f)) page) (new : List String) :
    Read.Sound text f history new ⟨s, cursor, page.runs⟩ :=
  ⟨⟨history, new, rfl, ring, cites⟩, continues.runs⟩

/-- A page without a next cursor ends the walk. -/
theorem Continues.ends (continues : Continues text (clampListRunsLimit f.limit)
      (Paging.rest (cursorKey text cursor) (s.keys f)) page) (finished : page.nextCursor = []) :
    Paging.Walk (clampListRunsLimit f.limit) (cursorKey text cursor)
      [(cursorKey text cursor, s.keys f)] := by
  refine .last ?_
  rw [Paging.page, ← continues.runs, List.length_map]
  exact continues.short finished

theorem walk_over (listed : s.listRuns text { f with cursor } = .ok page)
    (finished : page.nextCursor = []) :
    walk text env f s cursor events = some [⟨s, cursor, page.runs⟩] := by
  rw [walk, listed]
  simp [finished]

theorem walk_cons (listed : s.listRuns text { f with cursor } = .ok page)
    (more : page.nextCursor ≠ []) (first : List Event) :
    walk text env f s cursor (first :: events) =
      (walk text env f (first.foldl (RunList.apply env) s) page.nextCursor events).map
        (⟨s, cursor, page.runs⟩ :: ·) := by
  rw [walk, listed]
  simp [more]

section
variable (ring : Ring text history s)
include ring

/-- A walk that has ended is one finished the keys of the runs. -/
theorem walk_keyed (cites : Cites text history cursor)
    (readable : ∀ e ∈ events.flatten, e.Readable text)
    (fresh : (history ++ events.flatten.flatMap Event.newIDs).Nodup) {reads : List Read}
    (walked : walk text env f s cursor events = some reads) :
    Paging.Walk (clampListRunsLimit f.limit) (cursorKey text cursor)
        (reads.map (Read.keyed text f)) ∧
      ∀ r ∈ reads, r.Sound text f history (events.flatten.flatMap Event.newIDs) := by
  induction events generalizing history s cursor reads with
  | nil =>
    obtain ⟨page, listed, continues⟩ := ring.listRuns f cites
    rw [walk, listed] at walked
    obtain ⟨finished, ended⟩ : page.nextCursor = [] ∧ [⟨s, cursor, page.runs⟩] = reads := by
      simpa using walked
    subst ended
    exact ⟨continues.ends finished, by simpa using ring.read_sound cites continues []⟩
  | cons first later ih =>
    obtain ⟨page, listed, continues⟩ := ring.listRuns f cites
    have here := ring.read_sound cites continues ((first :: later).flatten.flatMap Event.newIDs)
    by_cases finished : page.nextCursor = []
    · rw [walk_over listed finished] at walked
      cases walked
      exact ⟨continues.ends finished, by simpa using here⟩
    · rw [walk_cons listed finished] at walked
      obtain ⟨rest, next, rfl⟩ := Option.map_eq_some_iff.mp walked
      obtain ⟨key, named, last, cites⟩ :=
        ring.cites_next (Paging.sublist_rest _ _) continues finished
      rw [List.flatten_cons, List.flatMap_append, ← List.append_assoc] at fresh
      have moved := ring.events env
        (fun e listed => readable e (List.mem_append_left _ listed)) fresh.of_append_left
      obtain ⟨walk, sound⟩ := ih moved (cites.mono _)
        (fun e listed => readable e (List.mem_append_right _ listed)) fresh next
      rw [named] at walk
      refine ⟨.more ?_ last walk, ?_⟩
      · rw [Paging.page, ← continues.runs, List.length_map]
        exact (continues.full finished).1
      · simp only [List.mem_cons, forall_eq_or_imp]
        refine ⟨here, fun r listed => ⟨?_, (sound r listed).runs⟩⟩
        simpa using (sound r listed).ring

/-- A walk ends when there are as many further reads as there are places for its runs. -/
theorem walk_ends (cites : Cites text history cursor)
    (readable : ∀ e ∈ events.flatten, e.Readable text)
    (fresh : (history ++ events.flatten.flatMap Event.newIDs).Nodup)
    (room : ∀ key ∈ Paging.rest (cursorKey text cursor) (s.keys f),
      age (history ++ events.flatten.flatMap Event.newIDs) key < events.length) :
    ∃ reads, walk text env f s cursor events = some reads := by
  induction events generalizing history s cursor with
  | nil =>
    obtain ⟨page, listed, continues⟩ := ring.listRuns f cites
    have nothing : Paging.rest (cursorKey text cursor) (s.keys f) = [] :=
      List.eq_nil_iff_forall_not_mem.mpr fun key mem => absurd (room key mem) (by simp)
    have finished : page.nextCursor = [] := by
      by_contra more
      obtain ⟨-, run, -, ends, -⟩ := continues.full more
      have runs := continues.runs
      rw [nothing, List.take_nil, List.map_eq_nil_iff] at runs
      simp [runs] at ends
    exact ⟨_, walk_over listed finished⟩
  | cons first later ih =>
    obtain ⟨page, listed, continues⟩ := ring.listRuns f cites
    by_cases finished : page.nextCursor = []
    · exact ⟨_, walk_over listed finished⟩
    · obtain ⟨key, named, last, cites⟩ :=
        ring.cites_next (Paging.sublist_rest _ _) continues finished
      have earlier := room key (List.mem_of_mem_take (List.mem_of_getLast? last))
      rw [List.flatten_cons, List.flatMap_append, ← List.append_assoc] at fresh earlier
      have moved := ring.events env
        (fun e listed => readable e (List.mem_append_left _ listed)) fresh.of_append_left
      have less : ∀ k ∈ Paging.rest (cursorKey text page.nextCursor)
            ((first.foldl (RunList.apply env) s).keys f),
          age ((history ++ first.flatMap Event.newIDs) ++ later.flatten.flatMap Event.newIDs) k <
            later.length := by
        intro k listed
        rw [named] at listed
        have behind := (moved.falling fresh).behind_of_mem_rest listed key rfl
        rw [List.length_cons] at earlier
        omega
      obtain ⟨reads, next⟩ := ih moved (cites.mono _)
        (fun e listed => readable e (List.mem_append_right _ listed)) fresh less
      exact ⟨_, by rw [walk_cons listed finished, next, Option.map_some]⟩

/-- What is no longer in the ring is older than all that is. -/
theorem Ring.idxOf_lt {id' : String} (new : List String)
    (distinct : (history ++ new).Nodup) (known : id ∈ history) (gone : id ∉ s.store.order)
    (present : id' ∈ s.store.order) : (history ++ new).idxOf id < (history ++ new).idxOf id' := by
  obtain ⟨past, rfl⟩ := ring.part
  have old : id ∈ past := by grind
  have young : id' ∉ past := by grind
  rw [List.append_assoc, List.idxOf_append_of_mem old, List.idxOf_append_of_notMem young]
  have bound := List.idxOf_lt_length_of_mem old
  omega

theorem Ring.idxOf_eq (new : List String)
    (distinct : (history ++ new).Nodup) :
    ∃ past, ∀ id ∈ s.store.order, (history ++ new).idxOf id = past + s.store.order.idxOf id := by
  obtain ⟨past, rfl⟩ := ring.part
  refine ⟨past.length, fun id present => ?_⟩
  have young : id ∉ past := by grind
  rw [List.append_assoc, List.idxOf_append_of_notMem young, List.idxOf_append_of_mem present]

end

/-- A current read is one of the keys as well. -/
theorem Read.Sound.current {new : List String} {r : Read} (sound : r.Sound text f history new)
    (distinct : (history ++ new).Nodup) (current : r.Current text f) :
    Paging.Current (age (history ++ new)) (r.keyed text f) := by
  obtain ⟨past, later, whole, ring, cites⟩ := sound.ring
  rw [← whole] at distinct ⊢
  rintro key (named : cursorKey text r.cursor = some key)
  rcases cites with first | ⟨id, known, ts, decoded⟩
  · rw [cursorKey, first] at named
    cases named
  · obtain rfl : idBytes id = key := by
      rw [cursorKey, decoded] at named
      exact Option.some.inj named
    have listed : ∀ key ∈ r.list.keys f, ∃ id', idBytes id' = key ∧ r.list.Lists f id' := by
      intro key mem
      obtain ⟨run, filed, rfl⟩ := List.mem_map.mp mem
      exact ⟨run.run.id, rfl, ring.mem_keys.mp mem⟩
    by_cases present : id ∈ r.list.store.order
    · refine ((current id named).resolve_left (not_not.mpr present)).imp ring.mem_keys.mpr ?_
      intro oldest key mem
      obtain ⟨id', rfl, there⟩ := listed key mem
      obtain ⟨offset, place⟩ := ring.idxOf_eq later distinct
      rw [age_idBytes, age_idBytes, place id present, place id' (ring.mem_order there)]
      have order := oldest id' there
      omega
    · refine .inr fun key mem => ?_
      obtain ⟨id', rfl, there⟩ := listed key mem
      rw [age_idBytes, age_idBytes]
      exact (ring.idxOf_lt later distinct known present (ring.mem_order there)).le.not_gt

def returned (reads : List Read) : List String := reads.flatMap fun r => r.runs.map (·.run.id)

/-- The ids of the runs that there are and that are created, oldest first. -/
def creations (s : RunList) (events : List (List Event)) : List String :=
  s.store.order ++ events.flatten.flatMap Event.newIDs

/-- Where a walk starts, and what happens during it: the store has come about by its own calls, all
ids are UUIDs and no two runs have the same. -/
structure Orderly (text : CursorText) (s : RunList) (events : List (List Event)) : Prop where
  sound : s.store.Sound
  filed : ∀ id e, s.store.runs.lookup id = some e →
    text.Instant e.run.createdAt ∧ text.isUUID (idBytes id) = true
  readable : ∀ e ∈ events.flatten, e.Readable text
  fresh : (creations s events).Nodup

/-- A walk over the runs ends, and if all its reads are current, it returns every run that is in
the store and matches the filter at each of them once, newest first. -/
theorem walk_misses_nothing {s : RunList} {events : List (List Event)}
    (orderly : Orderly text s events) (env : Env) (f : RunFilter) :
    (s.store.order.length ≤ events.length → ∃ reads, walk text env f s [] events = some reads) ∧
      ∀ reads, walk text env f s [] events = some reads → (∀ r ∈ reads, r.Current text f) →
        ((returned reads).Pairwise fun a b =>
          (creations s events).idxOf b < (creations s events).idxOf a) ∧
        ∀ id, (∀ r ∈ reads, r.list.Lists f id) → (returned reads).count id = 1 := by
  have ring : Ring text s.store.order s := ⟨orderly.sound, List.suffix_rfl, orderly.filed⟩
  have start : Cites text s.store.order [] := .inl rfl
  constructor
  · intro enough
    refine walk_ends ring start orderly.readable orderly.fresh fun key mem => ?_
    obtain ⟨run, -, rfl⟩ := List.mem_map.mp mem
    have present := ring.mem_order (ring.mem_keys.mp mem)
    rw [TypedRun.key, age_idBytes, List.idxOf_append_of_mem present]
    exact (List.idxOf_lt_length_of_mem present).trans_le enough
  · intro reads walked current
    obtain ⟨walk, sound⟩ := walk_keyed ring start orderly.readable orderly.fresh walked
    have falling : ∀ read ∈ reads.map (Read.keyed text f),
        Paging.Falling (age (creations s events)) read.2 := by
      intro read mem
      obtain ⟨r, listed, rfl⟩ := List.mem_map.mp mem
      obtain ⟨past, later, whole, ring, -⟩ := (sound r listed).ring
      rw [creations, ← whole]
      exact ring.falling (whole ▸ orderly.fresh)
    have cited : ∀ read ∈ reads.map (Read.keyed text f),
        Paging.Current (age (creations s events)) read := by
      intro read mem
      obtain ⟨r, listed, rfl⟩ := List.mem_map.mp mem
      exact (sound r listed).current orderly.fresh (current r listed)
    have keys : (reads.map (Read.keyed text f)).flatMap (Paging.page (clampListRunsLimit f.limit)) =
        (returned reads).map idBytes := by
      rw [List.flatMap_map, returned, List.map_flatMap]
      refine List.flatMap_congr fun r listed => ?_
      rw [← (sound r listed).runs, List.map_map]
      rfl
    have order := (walk.falling falling).1
    rw [keys, Paging.Falling, List.pairwise_map] at order
    simp only [age_idBytes] at order
    refine ⟨order, fun id steady => ?_⟩
    have listed : ∀ read ∈ reads.map (Read.keyed text f), idBytes id ∈ read.2 := by
      intro read mem
      obtain ⟨r, listed, rfl⟩ := List.mem_map.mp mem
      obtain ⟨past, later, -, ring, -⟩ := (sound r listed).ring
      exact ring.mem_keys.mpr (steady r listed)
    have there := walk.complete falling cited listed (by simp [Paging.Behind])
    rw [keys, List.mem_map_of_injective idBytes_injective] at there
    have once : (returned reads).Nodup := order.imp fun less same => by simp [same] at less
    exact List.count_eq_one_of_mem once there

end

/-- A clock whose texts are tallies. -/
def tally : CursorText where
  format t := List.replicate t.toNat 49
  parse b := some b.length
  isUUID b := isUUID (b.map fun b => Char.ofNat b.toNat)

theorem tally_instant (t : Int) : tally.Instant t := by
  simp [CursorText.Instant, tally, cursorSep]

def createAt (now : Int) (id : String) : Event :=
  ⟨now, .createRun id 0 "user" "u1" 1 (now + 10), "tcp"⟩

def thirdID : String := "00000000-0000-4000-8000-000000000003"

def twoRuns : RunList := [createAt 1 firstID, createAt 2 secondID].foldl (RunList.apply plainEnv) {}

def pendingRuns : RunFilter := { status := "pending", limit := 1 }

theorem orderly_twoRuns {events : List (List Event)}
    (named : ∀ e ∈ events.flatten, ∀ id ∈ e.newIDs, tally.isUUID (idBytes id) = true)
    (fresh : (creations twoRuns events).Nodup) : Orderly tally twoRuns events where
  sound := sound_calls plainEnv [createAt 1 firstID, createAt 2 secondID]
  filed id e held := ⟨tally_instant _, GoMap.forall_lookup
    (P := fun id _ => tally.isUUID (idBytes id) = true) (by decide +kernel) id e held⟩
  readable e listed := ⟨tally_instant _, named e listed⟩
  fresh := fresh

theorem walk_misses_nothing_twoRuns :
    ∃ reads, walk tally plainEnv { limit := 1 } twoRuns [] [[createAt 3 thirdID], []] = some reads ∧
      (returned reads).count firstID = 1 ∧ (returned reads).count secondID = 1 := by
  have orderly : Orderly tally twoRuns [[createAt 3 thirdID], []] :=
    orderly_twoRuns (by decide +kernel) (by decide +kernel)
  obtain ⟨reads, walked⟩ := (walk_misses_nothing orderly plainEnv { limit := 1 }).1 (by decide)
  have cited : ((walk tally plainEnv { limit := 1 } twoRuns [] [[createAt 3 thirdID], []]).all
      fun reads => decide (∀ r ∈ reads, r.list.Lists { limit := 1 } firstID ∧
        r.list.Lists { limit := 1 } secondID ∧ cursorKey tally r.cursor ∈
          [none, some (idBytes firstID), some (idBytes secondID)])) = true := by
    decide +kernel
  rw [walked, Option.all_some, decide_eq_true_eq] at cited
  have current : ∀ r ∈ reads, r.Current tally { limit := 1 } := by
    intro r listed id named
    obtain ⟨first, second, known⟩ := cited r listed
    simp only [named, List.mem_cons, Option.some.injEq, reduceCtorEq, false_or, List.not_mem_nil,
      or_false, idBytes_injective.eq_iff] at known
    rcases known with rfl | rfl
    · exact .inr (.inl first)
    · exact .inr (.inl second)
  have once := ((walk_misses_nothing orderly plainEnv { limit := 1 }).2 reads walked current).2
  exact ⟨reads, walked, once firstID fun r listed => (cited r listed).1,
    once secondID fun r listed => (cited r listed).2.1⟩

/-- The run that the cursor names is started before the next read: the pending run that is older
than it is never returned. -/
theorem walk_misses_started : Orderly tally twoRuns [[⟨3, .markRunStarted secondID, ""⟩]] ∧
      ∃ reads, walk tally plainEnv pendingRuns twoRuns [] [[⟨3, .markRunStarted secondID, ""⟩]] =
          some reads ∧ (∀ r ∈ reads, r.list.Lists pendingRuns firstID) ∧
        returned reads = [secondID] := by
  have ended : (walk tally plainEnv pendingRuns twoRuns []
      [[⟨3, .markRunStarted secondID, ""⟩]]).any (fun reads =>
        decide ((∀ r ∈ reads, r.list.Lists pendingRuns firstID) ∧ returned reads = [secondID])) =
          true := by
    decide +kernel
  obtain ⟨reads, walked, result⟩ := (Option.any_eq_true _ _).mp ended
  exact ⟨orderly_twoRuns (by decide +kernel) (by decide +kernel), reads, walked,
    of_decide_eq_true result⟩

end Kconmon.Console.RunStore
