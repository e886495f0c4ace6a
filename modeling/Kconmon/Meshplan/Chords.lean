import Kconmon.Lib.Ring
import Kconmon.Lib.TopK
import Kconmon.Meshplan.Properties

/-!
# The chords of an agent

`addChords` keeps a window of `zoneChords + ringDeg` candidates and skips the ring
neighbours it finds in there. The plain definition ranks all agents of other zones,
drops the ring successors and takes the first `zoneChords`. Both choose the same
agents, for every score function.
-/
namespace Kconmon.Meshplan
open Lib Model

/-! ## `addChords` for any scores -/

/-- The score of `dst` for `src`, by ring position. -/
abbrev Score := Nat → Nat → UInt64

def hashed (idHash : List UInt64) : Score :=
    fun i j => pairScore (idHash.getD i 0) (idHash.getD j 0)

def candidatesBy (score : Score) (ring : List AgentInfo) (src : AgentInfo) (i : Nat)
    (keep : Int) : Except Panic (List Scored) :=
  ring.zipIdx.foldlM (fun best (dst, j) =>
    if dst.zone = src.zone then .ok best else pushBest best ⟨j, score i j⟩ keep) []

def addChordsBy (score : Score) (ring : List AgentInfo) (adj : Adj) (ringDeg zoneChords : Int) :
    Except Panic Adj :=
  if zoneChords = 0 then .ok adj
  else if zoneChords + ringDeg < 0 then .error .makeSliceCapOutOfRange
  else ring.zipIdx.foldlM (fun adj (src, i) => do
    let best ← candidatesBy score ring src i (zoneChords + ringDeg)
    return takeChords ring src.id zoneChords best 0 adj) adj

theorem addChords_eq_addChordsBy (ring : List AgentInfo) (idHash : List UInt64) (adj : Adj)
    (ringDeg zoneChords : Int) : addChords ring idHash adj ringDeg zoneChords =
      addChordsBy (hashed idHash) ring adj ringDeg zoneChords := rfl

/-! ## The plain definition -/

/-- Score descending, then ring position ascending. -/
def Precedes (a b : Scored) : Prop := b.score < a.score ∨ a.score = b.score ∧ a.idx ≤ b.idx

instance : DecidableRel Precedes := fun _ _ => inferInstanceAs (Decidable (_ ∨ _))

/-- The agents of other zones, with their scores. -/
def rivals (score : Score) (ring : List AgentInfo) (src : AgentInfo) (i : Nat) : List Scored :=
  (ring.zipIdx.filter fun p => p.1.zone ≠ src.zone).map fun p => ⟨p.2, score i p.2⟩

def idAt (ring : List AgentInfo) (c : Scored) : String := (ring.getD c.idx default).id

/-- The ids of the agents of other zones, best first. -/
def ranked (score : Score) (ring : List AgentInfo) (src : AgentInfo) (i : Nat) : List String :=
  ((rivals score ring src i).insertionSort Precedes).map (idAt ring)

/-- Those of them that are not ring successors already. -/
def available (score : Score) (ring : List AgentInfo) (ringDeg : Int) (src : AgentInfo) (i : Nat) :
    List String := (ranked score ring src i).filter fun id => id ∉ successors ring ringDeg i

def chordsOf (score : Score) (ring : List AgentInfo) (ringDeg zoneChords : Int) (src : AgentInfo)
    (i : Nat) : List String := (available score ring ringDeg src i).take zoneChords.toNat

/-! ## The order -/

theorem outranks_eq_false_iff (a b : Scored) : a.outranks b = false ↔ Precedes b a := by
  unfold Scored.outranks Precedes
  split
  · rename_i differ
    simp only [decide_eq_false_iff_not, gt_iff_lt, UInt64.not_lt]
    rw [UInt64.le_iff_lt_or_eq]
    grind
  · rename_i same
    grind

instance : Std.Total Precedes where
  total a b := by
    unfold Precedes
    have := UInt64.lt_or_le a.score b.score
    grind

instance : IsTrans Scored Precedes where
  trans a b c := by
    unfold Precedes
    grind

instance : Std.Antisymm Precedes where
  antisymm a b := by
    obtain ⟨i, x⟩ := a
    obtain ⟨j, y⟩ := b
    unfold Precedes
    grind

/-- Worst first: the window read from its end. -/
def Trails (a b : Scored) : Prop := a.outranks b = false

instance : DecidableRel Trails := fun _ _ => inferInstanceAs (Decidable (_ = _))

theorem trails_iff {a b : Scored} : Trails a b ↔ Precedes b a := outranks_eq_false_iff a b

instance : Std.Total Trails where
  total a b := by
    rw [trails_iff, trails_iff]
    exact Std.Total.total b a

instance : IsTrans Scored Trails where
  trans a b c := by
    rw [trails_iff, trails_iff, trails_iff]
    exact fun ba cb => IsTrans.trans _ _ _ cb ba

/-! ## The window -/

theorem bubble_eq (c : Scored) (l : List Scored) : bubble c l = l.orderedInsert Trails c := by
  induction l with
  | nil => rfl
  | cons p ps ih => grind [bubble, Trails]

/-- One push, on the window read from its end. -/
theorem pushBest_eq {w : List Scored} {k : Nat} (fits : w.length ≤ k) (room : 0 < k)
    (c : Scored) : pushBest w.reverse c k = .ok ((w.orderedInsert Trails c).rtake k).reverse := by
  unfold pushBest
  rw [bubble_eq, List.reverse_reverse, List.length_reverse]
  by_cases notFull : w.length < k
  · rw [if_pos (by omega), List.rtake, List.orderedInsert_length, Nat.sub_eq_zero_of_le notFull,
      List.drop_zero]
  · rw [if_neg (by omega)]
    obtain ⟨p, ps, rfl⟩ := List.exists_cons_of_length_pos (show 0 < w.length by omega)
    have full : k = ps.length + 1 := by
      simp only [List.length_cons] at fits notFull
      omega
    simp only [List.getLast?_reverse, List.head?_cons, List.dropLast_reverse, List.tail_cons,
      List.reverse_reverse, bubble_eq]
    split
    · rename_i better
      have moves : ¬ Trails c p := by simp [Trails, better]
      rw [List.orderedInsert_cons, if_neg moves, rtake_cons_of_le, List.rtake,
        List.orderedInsert_length, full, Nat.sub_self, List.drop_zero]
      rw [List.orderedInsert_length, full]
    · rename_i worse
      have stays : Trails c p := by simpa [Trails] using worse
      rw [List.orderedInsert_cons_of_le _ _ stays, rtake_cons_of_le _ (by simp [full]), List.rtake,
        List.length_cons, full, Nat.sub_self, List.drop_zero]

theorem foldlM_pushBest {k : Nat} (room : 0 < k) (cs : List Scored) {w : List Scored}
    (fits : w.length ≤ k) : cs.foldlM (fun best c => pushBest best c k) w.reverse =
      .ok (cs.foldl (fun w c => (w.orderedInsert Trails c).rtake k) w).reverse := by
  induction cs generalizing w with
  | nil => rfl
  | cons c cs ih =>
    rw [List.foldlM_cons, pushBest_eq fits room]
    exact ih (by rw [Ring.length_rtake]; omega)

theorem reverse_insertionSort_trails (cs : List Scored) :
    (cs.reverse.insertionSort Trails).reverse = cs.insertionSort Precedes := by
  refine List.Perm.eq_of_pairwise' ?_ (List.pairwise_insertionSort Precedes _) ?_
  · rw [List.pairwise_reverse]
    exact (List.pairwise_insertionSort Trails _).imp trails_iff.mp
  · calc (cs.reverse.insertionSort Trails).reverse
        _ |>.Perm (cs.reverse.insertionSort Trails) := List.reverse_perm _
        _ |>.Perm cs.reverse := List.perm_insertionSort _ _
        _ |>.Perm cs := List.reverse_perm _
        _ |>.Perm _ := (List.perm_insertionSort _ _).symm

/-- The window ends with the best `keep` rivals, best first. -/
theorem candidatesBy_eq (score : Score) (ring : List AgentInfo) (src : AgentInfo) (i : Nat)
    {keep : Nat} (room : 0 < keep) : candidatesBy score ring src i keep =
      .ok (((rivals score ring src i).insertionSort Precedes).take keep) := by
  have loop := foldlM_skip (fun p : AgentInfo × Nat => p.1.zone = src.zone)
    (fun p => ⟨p.2, score i p.2⟩) (fun best c => pushBest best c keep) ring.zipIdx []
  have window := foldlM_pushBest room (rivals score ring src i) (w := []) (Nat.zero_le keep)
  rw [foldl_rtake_orderedInsert Trails room, List.rtake_eq_reverse_take_reverse,
    List.reverse_reverse, reverse_insertionSort_trails] at window
  exact loop.trans window

/-! ## The walk over the window -/

/-- The first `k` of the given ids that are not probed yet. -/
def unprobed (adj : Adj) (src : String) (k : Nat) (ids : List String) : List String :=
  (ids.filter fun id => id ∉ adj.peers src).take k

theorem unprobed_congr {adj adj' : Adj} {src : String} {ids : List String}
    (same : ∀ id ∈ ids, adj.Edge src id ↔ adj'.Edge src id) (k : Nat) :
    unprobed adj src k ids = unprobed adj' src k ids := by
  unfold unprobed
  congr 1
  refine List.filter_congr fun id listed => ?_
  have iff := same id listed
  unfold Adj.Edge at iff
  simp only [iff]

/-- The walk adds the first candidates that are not probed yet, as many as are still wanted. -/
theorem edge_takeChords_iff {ring : List AgentInfo} {src : String} {zoneChords : Int}
    {cs : List Scored} (distinct : (cs.map (idAt ring)).Nodup) {added : Int} {k : Nat}
    (wanted : zoneChords = added + k) (adj : Adj) (a b : String) :
    (takeChords ring src zoneChords cs added adj).Edge a b ↔
      adj.Edge a b ∨ a = src ∧ b ∈ unprobed adj src k (cs.map (idAt ring)) := by
  induction cs generalizing added k adj with
  | nil => simp [takeChords, unprobed]
  | cons c cs ih =>
    obtain ⟨fresh, distinct⟩ := List.nodup_cons.mp distinct
    rw [takeChords]
    split
    · have none : k = 0 := by omega
      simp [unprobed, none]
    · obtain ⟨k, rfl⟩ : ∃ k', k = k' + 1 := ⟨k - 1, by omega⟩
      split
      · rename_i probed
        change idAt ring c ∈ _ at probed
        have passed : unprobed adj src (k + 1) ((c :: cs).map (idAt ring)) =
            unprobed adj src (k + 1) (cs.map (idAt ring)) := by
          rw [List.map_cons, unprobed, List.filter_cons_of_neg (by simp [probed]), unprobed]
        rw [ih distinct wanted, passed]
      · rename_i new
        change idAt ring c ∉ _ at new
        -- the rest of the walk meets other ids, so the new edge does not change what it skips
        have rest : unprobed (adj.add src (idAt ring c)) src k (cs.map (idAt ring)) =
            unprobed adj src k (cs.map (idAt ring)) := by
          refine unprobed_congr (fun id listed => ?_) k
          have differ : id ≠ idAt ring c := fun same => fresh (same ▸ listed)
          simp [Adj.edge_add, differ]
        have picked : unprobed adj src (k + 1) ((c :: cs).map (idAt ring)) =
            idAt ring c :: unprobed adj src k (cs.map (idAt ring)) := by
          rw [List.map_cons, unprobed, List.filter_cons_of_pos (by simp [new]),
            List.take_succ_cons, unprobed]
        have one := ih distinct (show zoneChords = added + 1 + k by omega)
          (adj.add src (idAt ring c))
        change (takeChords ring src zoneChords cs (added + 1)
          (adj.add src (idAt ring c))).Edge a b ↔ _
        rw [one, rest, picked, Adj.edge_add]
        grind

/-- Each agent's walk reads and writes that agent's edges only. -/
theorem edge_foldl_takeChords {ring : List AgentInfo} {zoneChords : Nat}
    {best : AgentInfo × Nat → List Scored} (ranked : ∀ p, ((best p).map (idAt ring)).Nodup)
    {l : List (AgentInfo × Nat)} (distinct : (l.map fun p => p.1.id).Nodup) (adj : Adj)
    (a b : String) :
    (l.foldl (fun adj p => takeChords ring p.1.id zoneChords (best p) 0 adj) adj).Edge a b ↔
      adj.Edge a b ∨ ∃ p ∈ l, a = p.1.id ∧
        b ∈ unprobed adj p.1.id zoneChords ((best p).map (idAt ring)) := by
  induction l generalizing adj with
  | nil => simp
  | cons p l ih =>
    obtain ⟨fresh, distinct⟩ := List.nodup_cons.mp distinct
    have walk (a b : String) : (takeChords ring p.1.id zoneChords (best p) 0 adj).Edge a b ↔
        adj.Edge a b ∨ a = p.1.id ∧ b ∈ unprobed adj p.1.id zoneChords ((best p).map (idAt ring)) :=
      edge_takeChords_iff (ranked p) (by omega) adj a b
    have others : ∀ q ∈ l, unprobed (takeChords ring p.1.id zoneChords (best p) 0 adj) q.1.id
        zoneChords ((best q).map (idAt ring)) =
          unprobed adj q.1.id zoneChords ((best q).map (idAt ring)) := by
      intro q hq
      have differ : q.1.id ≠ p.1.id := fun same => fresh (List.mem_map.mpr ⟨q, hq, same⟩)
      refine unprobed_congr (fun id _ => ?_) zoneChords
      simp [walk, differ]
    rw [List.foldl_cons, ih distinct, walk]
    grind

/-! ## The plain definition is met -/

theorem map_idAt_rivals (score : Score) (ring : List AgentInfo) (src : AgentInfo) (i : Nat) :
    (rivals score ring src i).map (idAt ring) =
      (ring.zipIdx.filter fun p => p.1.zone ≠ src.zone).map fun p => p.1.id := by
  rw [rivals, List.map_map]
  refine List.map_congr_left fun p listed => ?_
  have placed := List.mem_zipIdx_iff_getElem?.mp (List.mem_of_mem_filter listed)
  simp [idAt, placed]

theorem map_id_zipIdx (ring : List AgentInfo) :
    (ring.zipIdx.map fun p => p.1.id) = ring.map AgentInfo.id := by
  have firsts : ring.zipIdx.map Prod.fst = ring := List.zipIdx_map_fst 0 ring
  calc (ring.zipIdx.map fun p => p.1.id)
      _ = (ring.zipIdx.map Prod.fst).map AgentInfo.id := by rw [List.map_map]; rfl
      _ = ring.map AgentInfo.id := by rw [firsts]

section
variable {ring : List AgentInfo} (distinct : (ring.map AgentInfo.id).Nodup)
include distinct

theorem nodup_ranked (score : Score) (src : AgentInfo) (i : Nat) :
    (ranked score ring src i).Nodup := by
  have order := (List.perm_insertionSort Precedes (rivals score ring src i)).map (idAt ring)
  refine order.nodup_iff.mpr ?_
  rw [map_idAt_rivals]
  refine List.Nodup.sublist (List.filter_sublist.map _) ?_
  rwa [map_id_zipIdx]

theorem position_eq {i j : Nat} {x y : AgentInfo} (hx : ring[i]? = some x)
    (hy : ring[j]? = some y) (same : x.id = y.id) : i = j := by
  have bound : i < (ring.map AgentInfo.id).length := by
    rw [List.length_map]
    exact (List.getElem?_eq_some_iff.mp hx).1
  exact (List.getElem?_inj bound distinct).mp (by simp [hx, hy, same])

theorem edge_ringAdj_iff {i : Nat} {src : AgentInfo} (placed : ring[i]? = some src)
    (ringDeg : Int) (b : String) :
    (ringAdj ring ringDeg).Edge src.id b ↔ b ∈ successors ring ringDeg i := by
  rw [edge_ringAdj]
  constructor
  · rintro ⟨x, j, hx, same, hb⟩
    exact position_eq distinct placed hx same ▸ hb
  · exact fun hb => ⟨src, i, placed, rfl, hb⟩

/-- The ring successors among the rivals are no more than the ring degree. -/
theorem length_refused_le (score : Score) (ringDeg : Int) (src : AgentInfo) (i : Nat) :
    ((ranked score ring src i).filter fun id => id ∈ successors ring ringDeg i).length ≤
      ringDeg.toNat := by
  have bounded : ((ranked score ring src i).filter fun id => id ∈ successors ring ringDeg i) ⊆
      successors ring ringDeg i := fun id listed => by simpa using (List.mem_filter.mp listed).2
  have fits :=
    (List.subperm_of_subset ((nodup_ranked distinct score src i).filter _) bounded).length_le
  simpa [successors] using fits

/-- What the walk over the window picks is what the plain definition picks. -/
theorem unprobed_window (score : Score) {i : Nat} {src : AgentInfo}
    (placed : ring[i]? = some src) (ringDeg zoneChords : Nat) :
    unprobed (ringAdj ring ringDeg) src.id zoneChords
        ((ranked score ring src i).take (zoneChords + ringDeg)) =
      chordsOf score ring ringDeg zoneChords src i := by
  have same : ∀ ids : List String, (ids.filter fun id => id ∉ (ringAdj ring ringDeg).peers src.id) =
      ids.filter fun id => id ∉ successors ring ringDeg i := by
    intro ids
    refine List.filter_congr fun id _ => ?_
    have edge := edge_ringAdj_iff distinct placed ringDeg id
    unfold Adj.Edge at edge
    simp only [edge]
  rw [unprobed, same]
  refine take_filter_take _ ?_
  simpa using length_refused_le distinct score ringDeg src i

theorem edge_addChordsBy (score : Score) (ringDeg zoneChords : Nat) :
    ∃ out, addChordsBy score ring (ringAdj ring ringDeg) ringDeg zoneChords = .ok out ∧
      ∀ a b, out.Edge a b ↔ (ringAdj ring ringDeg).Edge a b ∨
        ∃ i src, ring[i]? = some src ∧ a = src.id ∧
          b ∈ chordsOf score ring ringDeg zoneChords src i := by
  by_cases none : zoneChords = 0
  · subst none
    exact ⟨ringAdj ring ringDeg, rfl, by simp [chordsOf]⟩
  have room : 0 < zoneChords + ringDeg := by omega
  let best (p : AgentInfo × Nat) : List Scored :=
    ((rivals score ring p.1 p.2).insertionSort Precedes).take (zoneChords + ringDeg)
  have picked (p : AgentInfo × Nat) : (best p).map (idAt ring) =
      (ranked score ring p.1 p.2).take (zoneChords + ringDeg) := List.map_take
  have loop : addChordsBy score ring (ringAdj ring ringDeg) ringDeg zoneChords =
      .ok (ring.zipIdx.foldl (fun adj p => takeChords ring p.1.id zoneChords (best p) 0 adj)
        (ringAdj ring ringDeg)) := by
    rw [addChordsBy, if_neg (by omega), if_neg (by omega)]
    refine Eq.trans ?_ List.foldlM_pure
    congr 1
    funext adj p
    have window := candidatesBy_eq score ring p.1 p.2 room
    push_cast at window
    obtain ⟨src, i⟩ := p
    simp only [window]
    rfl
  refine ⟨_, loop, fun a b => ?_⟩
  rw [edge_foldl_takeChords (fun p => ?_) (by rwa [map_id_zipIdx])]
  · refine or_congr_right ⟨?_, ?_⟩
    · rintro ⟨⟨src, i⟩, listed, rfl, hb⟩
      have placed := List.mem_zipIdx_iff_getElem?.mp listed
      rw [picked, unprobed_window distinct score placed] at hb
      exact ⟨i, src, placed, rfl, hb⟩
    · rintro ⟨i, src, placed, rfl, hb⟩
      refine ⟨(src, i), List.mem_zipIdx_iff_getElem?.mpr placed, rfl, ?_⟩
      rwa [picked, unprobed_window distinct score placed]
  · rw [picked]
    exact (nodup_ranked distinct score p.1 p.2).sublist (List.take_sublist _ _)

end

/-- For every ring of agents with distinct ids, every ring degree and number of chords and
any scores, `addChords` never fails, keeps the ring, and gives each agent exactly the first
`zoneChords` agents of other zones, best score first and ring position breaking ties, that
are not its ring successors already. -/
theorem addChords_plain (ring : List AgentInfo) (distinct : (ring.map AgentInfo.id).Nodup)
    (ringDeg zoneChords : Int) (deg : 0 ≤ ringDeg) (chords : 0 ≤ zoneChords) :
    (∀ idHash adj, addChords ring idHash adj ringDeg zoneChords =
      addChordsBy (hashed idHash) ring adj ringDeg zoneChords) ∧
    ∀ score, ∃ out, addChordsBy score ring (ringAdj ring ringDeg) ringDeg zoneChords = .ok out ∧
      (∀ a b, (ringAdj ring ringDeg).Edge a b → out.Edge a b) ∧
      (∀ a b, out.Edge a b → ∃ x ∈ ring, x.id = a) ∧ ∀ i src, ring[i]? = some src →
        (∀ b, out.Edge src.id b ∧ ¬ (ringAdj ring ringDeg).Edge src.id b ↔
          b ∈ chordsOf score ring ringDeg zoneChords src i) ∧
        (chordsOf score ring ringDeg zoneChords src i).Nodup ∧
        (chordsOf score ring ringDeg zoneChords src i).length =
          min zoneChords.toNat (available score ring ringDeg src i).length := by
  obtain ⟨ringDeg, rfl⟩ := Int.eq_ofNat_of_zero_le deg
  obtain ⟨zoneChords, rfl⟩ := Int.eq_ofNat_of_zero_le chords
  refine ⟨fun idHash adj => addChords_eq_addChordsBy ring idHash adj _ _, fun score => ?_⟩
  obtain ⟨out, done, edges⟩ := edge_addChordsBy distinct score ringDeg zoneChords
  refine ⟨out, done, fun a b old => (edges a b).mpr (.inl old), fun a b edge => ?_,
    fun i src placed => ⟨fun b => ?_, ?_, List.length_take⟩⟩
  · rcases (edges a b).mp edge with old | ⟨i, src, placed, rfl, -⟩
    · obtain ⟨x, hx, -, -, same, -⟩ := within_ringAdj ring _ a b old
      exact ⟨x, hx, same⟩
    · exact ⟨src, List.mem_of_getElem? placed, rfl⟩
  · have kept : b ∈ chordsOf score ring ringDeg zoneChords src i →
        b ∉ successors ring ringDeg i := fun hb => by
      simpa using (List.mem_filter.mp (List.mem_of_mem_take hb)).2
    rw [edges, edge_ringAdj_iff distinct placed]
    constructor
    · rintro ⟨old | ⟨j, x, hx, same, hb⟩, new⟩
      · exact absurd old new
      · obtain rfl := position_eq distinct placed hx same
        rw [placed] at hx
        exact Option.some.inj hx ▸ hb
    · exact fun hb => ⟨.inr ⟨i, src, placed, rfl, hb⟩, kept hb⟩
  · exact ((nodup_ranked distinct score src i).filter _).sublist (List.take_sublist _ _)

/-- One chord each on top of a ring of degree one: with all scores equal, `"c"` gets the first
agent of the other zone, its ring successor, as a ring edge and the second as a chord. -/
theorem addChords_plain_smallFleet : ∃ out,
    addChordsBy (fun _ _ => 0) smallFleet (ringAdj smallFleet 1) 1 1 = .ok out ∧
      out.Edge "c" "a" ∧ out.Edge "c" "b" := by
  have distinct : (smallFleet.map AgentInfo.id).Nodup := by decide
  obtain ⟨-, all⟩ := addChords_plain smallFleet distinct 1 1 (by decide) (by decide)
  obtain ⟨out, done, grow, -, chords⟩ := all fun _ _ => 0
  refine ⟨out, done, grow _ _ ?_, (((chords 2 _ rfl).1 "b").mpr ?_).1⟩
  · exact (edge_ringAdj_iff distinct (i := 2) rfl 1 "a").mpr (by decide)
  · decide

end Kconmon.Meshplan
