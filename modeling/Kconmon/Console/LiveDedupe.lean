import Kconmon.Lib.Loops
import Kconmon.Lib.Recent

/-!
# Live events of several replicas

Every replica publishes the events it ingests, so the hub receives an event more than once.
`fanOutLive` drops what `idSet` has seen. The set is bounded: the oldest id leaves when a new one
finds it full, and may then come back as a new one. So the set is the last `max` ids it accepted
(`Lib.recent`), kept as a map for the question and as a slice for the order.
-/
namespace Kconmon.Console.Ws
open Lib

/-- `idSet`; its mutex is held for the whole of every `add`. -/
structure IDSet where
  max : Nat
  order : List String
  seen : GoMap String Unit

def newIDSet (maxEntries : Nat) : IDSet := ⟨maxEntries, [], ∅⟩

/-- The new id enters, and the oldest leaves a set that is then too large. -/
def IDSet.push (s : IDSet) (id : String) : IDSet :=
  let order := s.order ++ [id]
  let seen := AList.insert id () s.seen
  if order.length > s.max then
    { s with order := order.drop 1, seen := (order[0]?).elim seen fun oldest => seen.erase oldest }
  else { s with order, seen }

def IDSet.add (s : IDSet) (id : String) : Bool × IDSet :=
  if (s.seen.lookup id).isSome then (false, s) else (true, s.push id)

/-- A message of the bus. -/
structure Message (Data : Type) where
  type : String
  data : Data

/-- What becomes of a message: two kinds of warning, the counter, or a broadcast on the live
topic. -/
inductive FanOut (Data : Type) where
  | malformed
  | emptyID
  | deduped
  | broadcast (msgType : String) (data : Data)
  deriving DecidableEq

/-- `fanOutLive`; `unmarshal` reads the event's id. -/
def fanOutLive {Data : Type} (unmarshal : Data → Option String) (dedupe : IDSet)
    (msg : Message Data) : FanOut Data × IDSet :=
  match unmarshal msg.data with
  | none => (.malformed, dedupe)
  | some id =>
    if id = "" then (.emptyID, dedupe)
    else
      match dedupe.add id with
      | (false, dedupe) => (.deduped, dedupe)
      | (true, dedupe) =>
        (.broadcast (if msg.type = "" then "event" else msg.type) msg.data, dedupe)

/-! ## The set and its history -/

/-- A call of `add`, next to the ids for which the calls so far returned true. -/
def IDSet.called (s : IDSet × List String) (id : String) : IDSet × List String :=
  ((s.1.add id).2, if (s.1.add id).1 then s.2 ++ [id] else s.2)

/-- The set and the accepted ids after calls with `ids`. -/
def IDSet.after (max : Nat) (ids : List String) : IDSet × List String :=
  ids.foldl called (newIDSet max, [])

/-- The set holds the last `max` accepted ids. -/
structure IDSet.Holds (s : IDSet) (max : Nat) (accepted : List String) : Prop where
  cap : s.max = max
  order : s.order = recent max accepted
  seen : ∀ id, (s.seen.lookup id).isSome ↔ id ∈ s.order
  distinct : s.order.Nodup

theorem IDSet.Holds.add_iff {s : IDSet} {max : Nat} {accepted : List String}
    (holds : s.Holds max accepted) (id : String) :
    (s.add id).1 = true ↔ id ∉ recent max accepted := by
  unfold add
  rw [← holds.order, ← holds.seen]
  split <;> simp_all

theorem length_recent_le (max : Nat) (accepted : List String) :
    (recent max accepted).length ≤ max := by
  rw [recent, List.length_drop]
  omega

theorem recent_append (max : Nat) (accepted : List String) (id : String) :
    recent max (accepted ++ [id]) =
      if max < (recent max accepted ++ [id]).length then (recent max accepted ++ [id]).drop 1
      else recent max accepted ++ [id] := by
  simp only [recent, List.length_append, List.length_drop, List.length_singleton]
  split
  · rw [← List.drop_append_of_le_length (by omega), List.drop_drop]
    congr 1
    omega
  · rw [List.drop_append_of_le_length (by omega)]
    congr 2
    omega

theorem IDSet.Holds.push {s : IDSet} {max : Nat} {accepted : List String}
    (holds : s.Holds max accepted) {id : String} (new : id ∉ recent max accepted) :
    (s.push id).Holds max (accepted ++ [id]) := by
  obtain ⟨rfl, order, seen, distinct⟩ := holds
  rw [← order] at new
  have grown : (s.order ++ [id]).Nodup := by
    rw [List.nodup_append']
    exact ⟨distinct, List.nodup_singleton id, by simpa using new⟩
  have known : ∀ x, ((AList.insert id () s.seen).lookup x).isSome ↔ x ∈ s.order ++ [id] := by
    intro x
    rw [GoMap.lookup_insert_if, List.mem_append, List.mem_singleton, ← seen x]
    split <;> simp_all
  simp only [IDSet.push]
  split
  · rename_i full
    -- The slice is not empty, so its first id is the one that leaves.
    obtain ⟨oldest, rest, shape⟩ : ∃ oldest rest, s.order ++ [id] = oldest :: rest :=
      List.exists_cons_of_ne_nil (by simp)
    rw [shape] at grown known full
    obtain ⟨gone, kept⟩ := List.nodup_cons.mp grown
    refine ⟨rfl, ?_, ?_, ?_⟩
    · rw [recent_append, ← order, shape, if_pos full]
    · intro x
      simp only [shape, List.getElem?_cons_zero, Option.elim_some, List.drop_one, List.tail_cons]
      rw [GoMap.lookup_erase_if]
      split
      · simp_all
      · rw [known x, List.mem_cons]
        simp_all
    · simpa [shape] using kept
  · rename_i fits
    exact ⟨rfl, by rw [recent_append, ← order, if_neg fits], known, grown⟩

theorem IDSet.Holds.called {s : IDSet × List String} {max : Nat} (holds : s.1.Holds max s.2)
    (id : String) : (IDSet.called s id).1.Holds max (IDSet.called s id).2 := by
  unfold IDSet.called
  by_cases new : (s.1.add id).1 = true
  · have moved : (s.1.add id).2 = s.1.push id := by
      unfold add at new ⊢
      split at new <;> simp_all
    rw [moved, if_pos new]
    exact holds.push ((holds.add_iff id).mp new)
  · have same : (s.1.add id).2 = s.1 := by
      unfold add at new ⊢
      split at new <;> simp_all
    rw [same, if_neg new]
    exact holds

theorem IDSet.holds_after (max : Nat) (ids : List String) :
    (after max ids).1.Holds max (after max ids).2 := by
  have start : (newIDSet max).Holds max [] :=
    ⟨rfl, by simp [newIDSet, recent], by simp [newIDSet], List.nodup_nil⟩
  exact foldl_invariant (I := fun s : IDSet × List String => s.1.Holds max s.2) start
    fun _ id _ holds => holds.called id

/-- The set is an exact window on the accepted ids, at every point of every sequence of calls;
a capacity of zero makes no exception. -/
theorem idSet_exact_window (max : Nat) (ids : List String) (id : String) :
    (((IDSet.after max ids).1.add id).1 = true ↔ id ∉ recent max (IDSet.after max ids).2) ∧
      (IDSet.after max ids).1.order = recent max (IDSet.after max ids).2 ∧
      (IDSet.after max ids).1.order.Nodup ∧
      (IDSet.after max ids).1.seen.keys.Perm (IDSet.after max ids).1.order ∧
      (IDSet.after max ids).1.order.length ≤ max := by
  have holds := IDSet.holds_after max ids
  refine ⟨holds.add_iff id, holds.order, holds.distinct, ?_, ?_⟩
  · rw [List.perm_ext_iff_of_nodup (AList.keys_nodup _) holds.distinct]
    intro x
    rw [← AList.mem_keys, ← AList.lookup_isSome, holds.seen]
  · rw [holds.order]
    exact length_recent_le max _

-- A repetition does not keep `a`: `c` pushes it out, and then it is new.
example : (IDSet.after 2 ["a", "b", "a", "c", "a"]).2 = ["a", "b", "c", "a"] := by decide

/-- A message is broadcast if it is an event whose id is not among the last `max` broadcast ones,
and only a message that is broadcast moves the window. -/
theorem fanOutLive_broadcast_iff {Data : Type} (unmarshal : Data → Option String)
    {dedupe : IDSet} {max : Nat} {sent : List String} (holds : dedupe.Holds max sent)
    (msg : Message Data) :
    ((∃ msgType, (fanOutLive unmarshal dedupe msg).1 = .broadcast msgType msg.data) ↔
      ∃ id, unmarshal msg.data = some id ∧ id ≠ "" ∧ id ∉ recent max sent) ∧
      ∃ sent', (fanOutLive unmarshal dedupe msg).2.Holds max sent' := by
  unfold fanOutLive
  cases unmarshal msg.data with
  | none => exact ⟨by simp, sent, holds⟩
  | some id =>
    have next := IDSet.Holds.called (s := (dedupe, sent)) holds id
    have accepted := holds.add_iff id
    by_cases empty : id = ""
    · exact ⟨by simp [empty], sent, by simpa [empty] using holds⟩
    · cases result : dedupe.add id with
      | mk new dedupe' => cases new <;> simp_all [IDSet.called] <;> exact ⟨_, next⟩

end Kconmon.Console.Ws
