import Kconmon.Meshplan.Edges

/-!
# Zone-pair repair

After the repair every ordered pair of distinct populated zones is observed, and
the repair itself writes only edges that cross a zone border.
-/
namespace Kconmon.Meshplan
open Lib Model

/-! ## The two zone maps -/

variable {ring : List AgentInfo}

theorem lookup_zoneOf (distinct : (ring.map AgentInfo.id).Nodup) {x : AgentInfo} (hx : x ∈ ring) :
    (zoneOf ring).lookup x.id = some x.zone := by
  let entries := ring.map fun a => (⟨a.id, a.zone⟩ : Sigma fun _ : String => String)
  have keys : entries.NodupKeys := by
    change (entries.map Sigma.fst).Nodup
    simpa [entries, Function.comp_def] using distinct
  have stored : entries.dlookup x.id = some x.zone :=
    (List.mem_dlookup_iff keys).mpr (List.mem_map.mpr ⟨x, hx, rfl⟩)
  have filled := GoMap.lookup_foldl_entries (fun _ v => v) entries keys ∅ x.id
  rw [stored, List.foldl_map] at filled
  exact filled

theorem lookup_foldl_indexAgent (l : List (AgentInfo × Nat)) (m : GoMap String (List Nat))
    (z : String) : ((l.foldl indexAgent m).lookup z).getD [] =
      (m.lookup z).getD [] ++ (l.filter fun p => p.1.zone = z).map Prod.snd := by
  induction l generalizing m with
  | nil => simp
  | cons p l ih =>
    rw [List.foldl_cons, ih, indexAgent, GoMap.lookup_insert_if]
    by_cases hz : z = p.1.zone
    · subst hz; simp
    · simp [hz, Ne.symm hz]

theorem mem_foldl_indexAgent (l : List (AgentInfo × Nat)) (m : GoMap String (List Nat))
    (z : String) : z ∈ l.foldl indexAgent m ↔ z ∈ m ∨ ∃ p ∈ l, p.1.zone = z := by
  induction l generalizing m with
  | nil => simp
  | cons p l ih =>
    rw [List.foldl_cons, ih, indexAgent, AList.mem_insert]
    simp only [List.mem_cons, exists_eq_or_imp, eq_comm (a := z)]
    tauto

variable {z : String}

theorem mem_zoneIndex {i : Nat} :
    i ∈ ((zoneIndex ring).lookup z).getD [] ↔ ∃ x, ring[i]? = some x ∧ x.zone = z := by
  rw [zoneIndex, lookup_foldl_indexAgent, AList.lookup_empty, Option.getD_none, List.nil_append]
  constructor
  · intro h
    obtain ⟨⟨x, j⟩, hp, rfl⟩ := List.mem_map.mp h
    obtain ⟨hmem, zone⟩ := List.mem_filter.mp hp
    exact ⟨x, List.mem_zipIdx_iff_getElem?.mp hmem, by simpa using zone⟩
  · rintro ⟨x, hx, zone⟩
    refine List.mem_map.mpr ⟨(x, i), List.mem_filter.mpr ⟨?_, by simpa using zone⟩, rfl⟩
    exact List.mem_zipIdx_iff_getElem?.mpr hx

theorem mem_keys_zoneIndex : z ∈ (zoneIndex ring).keys ↔ ∃ x ∈ ring, x.zone = z := by
  rw [← AList.mem_keys, zoneIndex, mem_foldl_indexAgent]
  constructor
  · rintro (h | ⟨⟨x, i⟩, hp, zone⟩)
    · simp at h
    · exact ⟨x, List.mem_of_getElem? (List.mem_zipIdx_iff_getElem?.mp hp), zone⟩
  · rintro ⟨x, hx, zone⟩
    obtain ⟨i, hi⟩ := List.getElem?_of_mem hx
    exact .inr ⟨(x, i), List.mem_zipIdx_iff_getElem?.mpr hi, zone⟩

/-! ## The winner -/

theorem argmaxByScore_mem {indices : List Nat} (nonempty : indices ≠ []) (idHash : List UInt64)
    (salt : UInt64) : ∃ i ∈ indices, argmaxByScore indices idHash salt = some i := by
  obtain ⟨i, l, rfl⟩ := List.exists_cons_of_ne_nil nonempty
  have winner : ∃ c : Scored, (l.foldl (keepWinner idHash salt) (keepWinner idHash salt none i)) =
      some c ∧ c.idx ∈ i :: l := by
    refine foldl_invariant (I := fun w => ∃ c : Scored, w = some c ∧ c.idx ∈ i :: l)
      ⟨_, rfl, List.mem_cons_self⟩ ?_
    rintro _ j hj ⟨w, rfl, hw⟩
    unfold keepWinner
    dsimp only
    split
    · exact ⟨_, rfl, List.mem_cons_of_mem _ hj⟩
    · exact ⟨w, rfl, hw⟩
  obtain ⟨c, fold, hc⟩ := winner
  exact ⟨c.idx, hc, by rw [argmaxByScore, List.foldl_cons, fold]; rfl⟩

/-- A populated zone has a winner, and the winner is one of its agents. -/
theorem argmaxAgent_ok (populated : ∃ x ∈ ring, x.zone = z) (idHash : List UInt64) (salt : UInt64) :
    ∃ x ∈ ring, x.zone = z ∧
      argmaxAgent ring (((zoneIndex ring).lookup z).getD []) idHash salt = .ok x := by
  obtain ⟨y, hy, zone⟩ := populated
  obtain ⟨j, hj⟩ := List.getElem?_of_mem hy
  have nonempty : ((zoneIndex ring).lookup z).getD [] ≠ [] :=
    List.ne_nil_of_mem (mem_zoneIndex.mpr ⟨y, hj, zone⟩)
  obtain ⟨i, hi, best⟩ := argmaxByScore_mem nonempty idHash salt
  obtain ⟨x, hx, same⟩ := mem_zoneIndex.mp hi
  exact ⟨x, List.mem_of_getElem? hx, same, by simp [argmaxAgent, best, hx]⟩

/-! ## Coverage -/

/-- Some agent of `z1` probes some agent of `z2`. -/
def Observes (ring : List AgentInfo) (adj : Adj) (z1 z2 : String) : Prop :=
  ∃ x ∈ ring, ∃ y ∈ ring, x.zone = z1 ∧ y.zone = z2 ∧ adj.Edge x.id y.id

variable {adj : Adj} {z1 z2 : String}

theorem Observes.mono {adj' : Adj} (h : Extends ring adj adj') (seen : Observes ring adj z1 z2) :
    Observes ring adj' z1 z2 := by
  obtain ⟨x, hx, y, hy, zx, zy, edge⟩ := seen
  exact ⟨x, hx, y, hy, zx, zy, h.1 _ _ edge⟩

/-- Both ends of every edge are ring agents. -/
def Within (ring : List AgentInfo) (adj : Adj) : Prop :=
  ∀ a b, adj.Edge a b → ∃ x ∈ ring, ∃ y ∈ ring, x.id = a ∧ y.id = b

theorem Within.mono {adj' : Adj} (h : Extends ring adj adj') (inside : Within ring adj) :
    Within ring adj' := by
  intro a b edge
  rcases h.2 a b edge with old | ⟨x, hx, y, hy, ha, hb, -⟩
  · exact inside a b old
  · exact ⟨x, hx, y, hy, ha, hb⟩

theorem observes_of_covered {ord : RangeOrder} (distinct : (ring.map AgentInfo.id).Nodup)
    (inside : Within ring adj) (covered : (z1, z2) ∈ coveredPairs ord ring adj) :
    Observes ring adj z1 z2 := by
  obtain ⟨e, he, hp⟩ := List.mem_flatMap.mp covered
  obtain ⟨dst, hdst, pair⟩ := List.mem_map.mp hp
  have stored : adj.lookup e.1 = some e.2 := AList.mem_lookup_iff.mpr ((ord.mem_visit 1).mp he)
  have edge : adj.Edge e.1 dst := by
    simpa [Adj.Edge, Adj.peers, stored] using hdst
  obtain ⟨x, hx, y, hy, hxa, hyb⟩ := inside _ _ edge
  subst hyb
  rw [← hxa] at edge pair
  obtain ⟨rfl, rfl⟩ : x.zone = z1 ∧ y.zone = z2 := by
    simpa [lookup_zoneOf distinct hx, lookup_zoneOf distinct hy] using pair
  exact ⟨x, hx, y, hy, rfl, rfl, edge⟩

theorem repairPair_ok (first : ∃ x ∈ ring, x.zone = z1) (second : ∃ y ∈ ring, y.zone = z2)
    (idHash : List UInt64) (covered : List (String × String)) (adj : Adj) :
    ∃ out, repairPair ring idHash covered z1 z2 adj = .ok out ∧ Extends ring adj out ∧
      (z1 ≠ z2 → (z1, z2) ∈ covered ∨ Observes ring out z1 z2) := by
  unfold repairPair
  split
  · rename_i same
    exact ⟨adj, rfl, .refl ring adj, fun ne => absurd same ne⟩
  · rename_i differ
    split
    · rename_i seen
      exact ⟨adj, rfl, .refl ring adj, fun _ => .inl seen⟩
    · let salt := fnvHashParts ["zone-pair-repair", z1, z2]
      obtain ⟨x, hx, zx, src⟩ := argmaxAgent_ok first idHash salt
      obtain ⟨y, hy, zy, dst⟩ := argmaxAgent_ok second idHash salt
      refine ⟨adj.add x.id y.id, ?_, ?_, fun _ => .inr ?_⟩
      · dsimp only
        rw [src, dst]
        rfl
      · exact (Extends.refl ring adj).add ⟨x, hx, y, hy, rfl, rfl, by rw [zx, zy]; exact differ⟩
      · exact ⟨x, hx, y, hy, zx, zy, (Adj.edge_add _ _ _ _ _).mpr (.inr ⟨rfl, rfl⟩)⟩

/-- The repair never fails, adds cross-zone edges only, and leaves no ordered pair of
distinct populated zones unobserved. -/
theorem repairZonePairs_ok (ord : RangeOrder) (distinct : (ring.map AgentInfo.id).Nodup)
    (idHash : List UInt64) (inside : Within ring adj) :
    ∃ out, repairZonePairs ord ring idHash adj = .ok out ∧ Extends ring adj out ∧
      ∀ x ∈ ring, ∀ y ∈ ring, x.zone ≠ y.zone → Observes ring out x.zone y.zone := by
  unfold repairZonePairs
  split
  · -- fewer than two zones: there is no pair to observe
    rename_i few
    refine ⟨adj, rfl, .refl ring adj, fun x hx y hy differ => ?_⟩
    have hx' := mem_keys_zoneIndex.mpr ⟨x, hx, rfl⟩
    have hy' := mem_keys_zoneIndex.mpr ⟨y, hy, rfl⟩
    have two : [x.zone, y.zone].Subperm (zoneIndex ring).keys :=
      List.subperm_of_subset (by simpa using differ) (by simp [hx', hy'])
    have bound := two.length_le
    simp only [List.length_cons, List.length_nil] at bound
    omega
  · dsimp only
    set zones := (ord.visit 0 (zoneIndex ring).keys).insertionSort (· ≤ ·)
    have populated : ∀ z, z ∈ zones ↔ ∃ x ∈ ring, x.zone = z := by
      intro z
      rw [(List.perm_insertionSort _ _).mem_iff, ord.mem_visit, mem_keys_zoneIndex]
    let covered := coveredPairs ord ring adj
    let Done (z1 z2 : String) (out : Adj) : Prop :=
      z1 ≠ z2 → (z1, z2) ∈ covered ∨ Observes ring out z1 z2
    have stable : ∀ z1 z2 {b b' : Adj}, Extends ring b b' → Done z1 z2 b → Done z1 z2 b' :=
      fun _ _ _ _ up done ne => (done ne).imp_right (Observes.mono up)
    have row : ∀ b, ∀ z1 ∈ zones, ∃ b', zones.foldlM
        (fun adj z2 => repairPair ring idHash covered z1 z2 adj) b = .ok b' ∧
        Extends ring b b' ∧ ∀ z2 ∈ zones, Done z1 z2 b' := fun b z1 h1 =>
      foldlM_establishes (Extends.refl ring) Extends.trans (stable z1)
        (fun b z2 h2 =>
          repairPair_ok ((populated z1).mp h1) ((populated z2).mp h2) idHash covered b) b
    obtain ⟨out, done, up, all⟩ := foldlM_establishes (Q := fun z1 b => ∀ z2 ∈ zones, Done z1 z2 b)
      (Extends.refl ring) Extends.trans (fun z1 _ _ up h z2 h2 => stable z1 z2 up (h z2 h2)) row adj
    refine ⟨out, done, up, fun x hx y hy differ => ?_⟩
    rcases all _ ((populated _).mpr ⟨x, hx, rfl⟩) _ ((populated _).mpr ⟨y, hy, rfl⟩) differ
      with seen | seen
    · exact (observes_of_covered distinct inside seen).mono up
    · exact seen

end Kconmon.Meshplan
