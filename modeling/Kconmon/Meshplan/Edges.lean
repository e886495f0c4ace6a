import Kconmon.Meshplan.Basic
import Mathlib.Data.List.GetD
import Mathlib.Data.List.Infix

/-!
# What each layer writes

One lemma for each loop of the planner says which edges the adjacency map has
after it. Later proofs use these lemmas and never unfold a loop.
-/
namespace Kconmon.Meshplan
open Lib Model

def Adj.Edge (adj : Adj) (a b : String) : Prop := b ∈ adj.peers a

/-- Edge `a → b` of a plan. -/
def Plan.Probes (plan : Plan) (a b : String) : Prop :=
    ∃ peers, plan.lookup a = some peers ∧ b ∈ peers

theorem Adj.edge_add (adj : Adj) (src dst a b : String) :
    (adj.add src dst).Edge a b ↔ adj.Edge a b ∨ (a = src ∧ b = dst) := by
  unfold Adj.Edge Adj.add
  by_cases ha : a = src
  · subst ha
    simp only [Adj.peers, AList.lookup_insert, Option.getD_some, List.mem_insert_iff, true_and]
    tauto
  · simp [Adj.peers, ha]

theorem Adj.edge_foldl_add (adj : Adj) (src : String) (dsts : List String) (a b : String) :
    (dsts.foldl (fun adj dst => adj.add src dst) adj).Edge a b ↔
      adj.Edge a b ∨ (a = src ∧ b ∈ dsts) := by
  induction dsts generalizing adj with
  | nil => simp
  | cons d ds ih =>
    rw [List.foldl_cons, ih, Adj.edge_add, List.mem_cons]
    tauto

/-! ## The ring -/

theorem perm_sortRing (agents : List AgentInfo) : (sortRing agents).Perm agents :=
  List.perm_insertionSort _ agents

@[simp] theorem length_sortRing (agents : List AgentInfo) :
    (sortRing agents).length = agents.length := (perm_sortRing agents).length_eq

@[simp] theorem mem_sortRing {agents : List AgentInfo} {a : AgentInfo} :
    a ∈ sortRing agents ↔ a ∈ agents := (perm_sortRing agents).mem_iff

theorem distinct_sortRing {agents : List AgentInfo}
    (distinct : (agents.map AgentInfo.id).Nodup) : ((sortRing agents).map AgentInfo.id).Nodup :=
  (((perm_sortRing agents).map AgentInfo.id).nodup_iff).mpr distinct

theorem not_edge_ofKeys (keys : List String) (a b : String) :
    ¬ Adj.Edge (GoMap.ofKeys keys []) a b := by
  unfold Adj.Edge Adj.peers
  rw [GoMap.lookup_ofKeys]
  split <;> simp

theorem edge_addRing (ring : List AgentInfo) (ringDeg : Int) (adj : Adj) (a b : String) :
    (addRing ring ringDeg adj).Edge a b ↔ adj.Edge a b ∨
      ∃ x i, ring[i]? = some x ∧ a = x.id ∧ b ∈ successors ring ringDeg i := by
  have general : ∀ (l : List (AgentInfo × Nat)) (adj : Adj),
      (l.foldl (fun adj (p : AgentInfo × Nat) =>
        (successors ring ringDeg p.2).foldl (fun adj dst => adj.add p.1.id dst) adj) adj).Edge a b ↔
      adj.Edge a b ∨ ∃ p ∈ l, a = p.1.id ∧ b ∈ successors ring ringDeg p.2 := by
    intro l
    induction l with
    | nil => simp
    | cons p l ih =>
      intro adj
      rw [List.foldl_cons, ih, Adj.edge_foldl_add]
      simp only [List.mem_cons, exists_eq_or_imp]
      tauto
  refine (general ring.zipIdx adj).trans (or_congr_right ?_)
  constructor
  · rintro ⟨⟨x, i⟩, hp, rest⟩
    exact ⟨x, i, List.mem_zipIdx_iff_getElem?.mp hp, rest⟩
  · rintro ⟨x, i, hx, rest⟩
    exact ⟨(x, i), List.mem_zipIdx_iff_getElem?.mpr hx, rest⟩

variable {ring : List AgentInfo} {ringDeg : Int} {i : Nat}

theorem mem_successors {b : String} :
    b ∈ successors ring ringDeg i ↔ ∃ d, d < ringDeg.toNat ∧ (successor ring i (d + 1)).id = b := by
  simp [successors]

theorem successor_mem (nonempty : ring ≠ []) (i d : Nat) : successor ring i d ∈ ring := by
  have bound : (i + d) % ring.length < ring.length :=
    Nat.mod_lt _ (List.length_pos_of_ne_nil nonempty)
  rw [successor, List.getD_eq_getElem _ _ bound]
  exact List.getElem_mem bound

/-! ## The candidate window -/

@[simp] theorem mem_bubble {c x : Scored} {l : List Scored} :
    x ∈ bubble c l ↔ x = c ∨ x ∈ l := by
  induction l with
  | nil => simp [bubble]
  | cons p ps ih =>
    rw [bubble]
    split
    · rw [List.mem_cons, ih, List.mem_cons]; tauto
    · rw [List.mem_cons]

variable {best : List Scored}

theorem mem_pushBest {out : List Scored} {c x : Scored} {k : Int}
    (done : pushBest best c k = .ok out) (hx : x ∈ out) : x = c ∨ x ∈ best := by
  unfold pushBest at done
  split at done
  · cases done
    simpa using hx
  · split at done
    · cases done
    · split at done
      · cases done
        simp only [List.mem_reverse, mem_bubble] at hx
        exact hx.imp_right fun h => List.mem_of_mem_dropLast h
      · cases done
        exact .inr hx

/-- With room for at least one entry the window never indexes an empty slice. -/
theorem pushBest_ok (best : List Scored) (c : Scored) {k : Int} (room : 1 ≤ k) :
    ∃ out, pushBest best c k = .ok out := by
  unfold pushBest
  split
  · exact ⟨_, rfl⟩
  · rename_i full
    have nonempty : best ≠ [] := by
      rintro rfl
      simp at full
      omega
    rw [List.getLast?_eq_some_getLast nonempty]
    dsimp only
    split <;> exact ⟨_, rfl⟩

variable {idHash : List UInt64} {keep : Int}

theorem mem_candidates {src : AgentInfo} (done : candidates ring idHash src i keep = .ok best)
    {c : Scored} (hc : c ∈ best) : ∃ x, ring[c.idx]? = some x ∧ x.zone ≠ src.zone := by
  refine foldlM_invariant (I := fun l => ∀ c ∈ l, ∃ x, ring[c.idx]? = some x ∧ x.zone ≠ src.zone)
    (by simp) ?_ done c hc
  rintro b ⟨dst, j⟩ hp b' inv iter c hc
  dsimp only at iter
  split at iter
  · cases iter
    exact inv c hc
  · rename_i other
    rcases mem_pushBest iter hc with rfl | old
    · exact ⟨dst, List.mem_zipIdx_iff_getElem?.mp hp, other⟩
    · exact inv c old

theorem candidates_ok (ring : List AgentInfo) (idHash : List UInt64) (src : AgentInfo) (i : Nat)
    (room : 1 ≤ keep) : ∃ best, candidates ring idHash src i keep = .ok best := by
  refine foldlM_completes (fun best p _ => ?_) []
  dsimp only
  split
  · exact ⟨best, rfl⟩
  · exact pushBest_ok best _ room

/-! ## Chords -/

theorem edge_takeChords (ring : List AgentInfo) (src : String) (zoneChords : Int)
    (cs : List Scored) (added : Int) (adj : Adj) :
    (∀ a b, adj.Edge a b → (takeChords ring src zoneChords cs added adj).Edge a b) ∧
    ∀ a b, (takeChords ring src zoneChords cs added adj).Edge a b → adj.Edge a b ∨
      (a = src ∧ ∃ c ∈ cs, b = (ring.getD c.idx default).id) := by
  induction cs generalizing added adj with
  | nil => exact ⟨fun _ _ h => h, fun _ _ h => .inl h⟩
  | cons c cs ih =>
    rw [takeChords]
    split
    · exact ⟨fun _ _ h => h, fun _ _ h => .inl h⟩
    · split
      · refine ⟨(ih added adj).1, fun a b h => ((ih added adj).2 a b h).imp_right ?_⟩
        rintro ⟨ha, d, hd, hb⟩
        exact ⟨ha, d, List.mem_cons_of_mem _ hd, hb⟩
      · obtain ⟨grow, only⟩ := ih (added + 1) (adj.add src (ring.getD c.idx default).id)
        refine ⟨fun a b h => grow a b ((Adj.edge_add _ _ _ _ _).mpr (.inl h)), fun a b h => ?_⟩
        rcases only a b h with old | ⟨ha, d, hd, hb⟩
        · exact ((Adj.edge_add _ _ _ _ _).mp old).imp_right fun ⟨ha, hb⟩ => ⟨ha, c, by simp, hb⟩
        · exact .inr ⟨ha, d, List.mem_cons_of_mem _ hd, hb⟩

/-- Two ring agents of different zones. -/
def CrossZone (ring : List AgentInfo) (a b : String) : Prop :=
  ∃ x ∈ ring, ∃ y ∈ ring, x.id = a ∧ y.id = b ∧ x.zone ≠ y.zone

/-- `adj'` has the edges of `adj`, and every other edge of it crosses a zone border. -/
def Extends (ring : List AgentInfo) (adj adj' : Adj) : Prop :=
  (∀ a b, adj.Edge a b → adj'.Edge a b) ∧ ∀ a b, adj'.Edge a b → adj.Edge a b ∨ CrossZone ring a b

theorem Extends.refl (ring : List AgentInfo) (adj : Adj) : Extends ring adj adj :=
  ⟨fun _ _ h => h, fun _ _ h => .inl h⟩

theorem Extends.trans {adj adj' adj'' : Adj} (first : Extends ring adj adj')
    (second : Extends ring adj' adj'') : Extends ring adj adj'' :=
  ⟨fun a b h => second.1 a b (first.1 a b h), fun a b h => (second.2 a b h).elim (first.2 a b) .inr⟩

theorem Extends.add {adj adj' : Adj} {src dst : String} (h : Extends ring adj adj')
    (cross : CrossZone ring src dst) : Extends ring adj (adj'.add src dst) := by
  refine h.trans ⟨fun a b he => (Adj.edge_add _ _ _ _ _).mpr (.inl he), fun a b he => ?_⟩
  rcases (Adj.edge_add _ _ _ _ _).mp he with old | ⟨rfl, rfl⟩
  · exact .inl old
  · exact .inr cross

variable {zoneChords : Int}

theorem extends_takeChords {src : AgentInfo} (hsrc : src ∈ ring)
    (done : candidates ring idHash src i keep = .ok best) (adj : Adj) :
    Extends ring adj (takeChords ring src.id zoneChords best 0 adj) := by
  obtain ⟨grow, only⟩ := edge_takeChords ring src.id zoneChords best 0 adj
  refine ⟨grow, fun a b h => (only a b h).imp_right ?_⟩
  rintro ⟨rfl, c, hc, rfl⟩
  obtain ⟨y, hy, zone⟩ := mem_candidates done hc
  have found : ring.getD c.idx default = y := by simp [List.getD_eq_getElem?_getD, hy]
  exact ⟨src, hsrc, y, List.mem_of_getElem? hy, rfl, by rw [found], zone.symm⟩

theorem extends_addChords {adj out : Adj}
    (done : addChords ring idHash adj ringDeg zoneChords = .ok out) : Extends ring adj out := by
  unfold addChords at done
  split at done
  · cases done
    exact .refl ring adj
  · split at done
    · cases done
    · refine foldlM_invariant (I := Extends ring adj) (.refl ring adj) ?_ done
      rintro b ⟨src, i⟩ hp b' inv iter
      have hsrc : src ∈ ring := List.mem_of_getElem? (List.mem_zipIdx_iff_getElem?.mp hp)
      cases found : candidates ring idHash src i (zoneChords + ringDeg) with
      | error e => simp [found, bind, Except.bind] at iter
      | ok best =>
        obtain rfl : takeChords ring src.id zoneChords best 0 b = b' := by
          simpa [found, bind, Except.bind, pure, Except.pure] using iter
        exact inv.trans (extends_takeChords hsrc found b)

theorem addChords_ok (ring : List AgentInfo) (idHash : List UInt64) (adj : Adj) (deg : 0 ≤ ringDeg)
    (chords : 0 ≤ zoneChords) : ∃ out, addChords ring idHash adj ringDeg zoneChords = .ok out := by
  unfold addChords
  split
  · exact ⟨adj, rfl⟩
  · rename_i some_chords
    rw [if_neg (by omega)]
    refine foldlM_completes (fun adj p _ => ?_) adj
    have room : 1 ≤ zoneChords + ringDeg := by omega
    obtain ⟨best, found⟩ := candidates_ok ring idHash p.1 p.2 room
    exact ⟨takeChords ring p.1.id zoneChords best 0 adj, by dsimp only; rw [found]; rfl⟩

end Kconmon.Meshplan
