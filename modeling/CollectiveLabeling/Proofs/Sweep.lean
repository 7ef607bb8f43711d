import CollectiveLabeling.Proofs.Hypergraph.Accepted
import CollectiveLabeling.Sweep

namespace CollectiveLabeling

namespace Hypergraph.Sound

variable {g : Hypergraph} {labels : Nat}

theorem incident_range (h : g.Sound labels) {n e : Int} {es : List Int} (hi : g.incident n = .ok es)
    (he : e ∈ es) : 0 ≤ e ∧ e < g.edges.size :=
  have ⟨_, _, hp⟩ := lookup_eq_ok.mp hi
  h.incident es (Array.mem_of_getElem? hp) e he

theorem edge_ok (h : g.Sound labels) {n e : Int} {es : List Int} (hi : g.incident n = .ok es)
    (he : e ∈ es) : ∃ r ∈ g.edges, g.edge e = .ok r := by
  have ⟨nonneg, lt⟩ := h.incident_range hi he
  obtain ⟨k, rfl⟩ := Int.eq_ofNat_of_zero_le nonneg
  have hk : k < g.edges.size := by omega
  exact ⟨g.edges[k], Array.getElem_mem hk, lookup_natCast hk⟩

theorem others_ok (h : g.Sound labels) {n e : Int} {es : List Int} (hi : g.incident n = .ok es)
    (he : e ∈ es) : ∃ ms, g.others n e = .ok ms := by
  have ⟨r, _, hr⟩ := h.edge_ok hi he
  exact ⟨r.members.filter (· ≠ n), by simp [others, Hypergraph.members, hr]⟩

theorem incident_ok (h : g.Sound labels) {n : Nat} (hn : n < g.nodes.size) :
    ∃ es, g.incident n = .ok es :=
  ⟨_, lookup_natCast (h.size ▸ hn)⟩

theorem neighbors_ok (h : g.Sound labels) {n : Nat} (hn : n < g.nodes.size) :
    ∃ near, g.neighbors n = .ok near := by
  have ⟨es, hi⟩ := h.incident_ok hn
  have ⟨near, hm⟩ := Attempt.exists_mapM_eq_ok
    (f := fun e => List.map (e, ·) <$> g.others n e) fun e (he : e ∈ es) => by
      have ⟨ms, hms⟩ := h.others_ok hi he
      exact ⟨ms.map (e, ·), by simp [hms]⟩
  exact ⟨near.flatten, by simp [neighbors, hi, hm]⟩

end Hypergraph.Sound

namespace Sweep

theorem reach_perm (near : List Int) (untouched : List Nat) :
    ((reach near untouched).1 ++ (reach near untouched).2).Perm untouched := by
  induction near generalizing untouched
  case nil => simp [reach]
  case cons m near hi =>
    by_cases h : 0 ≤ m ∧ m.toNat ∈ untouched
    case pos =>
      simp only [reach, h, and_self, if_true, List.cons_append]
      exact ((hi _).cons _).trans (List.perm_cons_erase h.right).symm
    case neg =>
      simp only [reach, h, if_false]
      exact hi untouched

theorem explore_perm {g : Hypergraph} (untouched pending : List Nat)
    (h : ∀ n ∈ pending ++ untouched, ∃ near, g.neighbors n = .ok near) :
    ∃ order, explore g untouched pending = .ok order ∧ order.Perm (pending ++ untouched) := by
  induction untouched, pending using explore.induct
  case case1 => exact ⟨[], by simp [explore], by simp⟩
  case case2 seed untouched hi =>
    have ⟨order, ho, hp⟩ := hi (by simpa using h)
    exact ⟨order, by simp [explore, ho], by simpa using hp⟩
  case case3 n pending untouched hi =>
    have ⟨near, hn⟩ := h n (by simp)
    have hr := reach_perm (near.map (·.2)) untouched
    -- What has just been reached goes from the untouched nodes to the pending ones.
    have hm : ((pending ++ (reach (near.map (·.2)) untouched).1) ++
        (reach (near.map (·.2)) untouched).2).Perm (pending ++ untouched) := by
      simpa using hr.append_left pending
    have ⟨later, hl, hp⟩ := hi near fun m hm' => h m (by simpa using Or.inr (hm.mem_iff.mp hm'))
    exact ⟨n :: later, by simp [explore, hn, hl], (hp.trans hm).cons n⟩

theorem order_perm {g : Hypergraph} {labels : Nat} (h : g.Sound labels) :
    ∃ order, Sweep.order g = .ok order ∧ order.Perm (List.range g.nodes.size) := by
  have ⟨order, ho, hp⟩ := explore_perm (g := g) (List.range g.nodes.size) [] fun n hn =>
    h.neighbors_ok (by simpa using hn)
  exact ⟨order, ho, by simpa using hp⟩

-- The order only depends on how the nodes are joined.
theorem explore_congr {g h : Hypergraph} (hn : ∀ n, g.neighbors n = h.neighbors n)
    (untouched pending : List Nat) : explore g untouched pending = explore h untouched pending := by
  induction untouched, pending using explore.induct
  case case1 => simp [explore]
  case case2 hi => simpa [explore] using hi
  case case3 n pending untouched hi =>
    simp only [explore, hn]
    cases h.neighbors n
    case error => rfl
    case ok near => simp only [Attempt.ok_bind, hi near]

theorem order_congr {g h : Hypergraph} (hs : g.nodes.size = h.nodes.size) (he : g.edges = h.edges)
    (ha : g.adjacency = h.adjacency) : order g = order h := by
  have hn (n : Int) : g.neighbors n = h.neighbors n := by
    simp [Hypergraph.neighbors, Hypergraph.incident, Hypergraph.others, Hypergraph.members,
      Hypergraph.edge, he, ha]
  rw [order, order, hs, explore_congr fun n => hn n]

-- The direction of a pass by its number.
theorem direct_natCast {α : Type} (order : List α) (i : Nat) :
    direct order i = if i % 2 = 0 then order else order.reverse := by
  have parity : (i : Int) % 2 = 1 ↔ ¬i % 2 = 0 := by omega
  simp only [direct, parity, ite_not]

theorem direct_perm {α : Type} (order : List α) (pass : Int) : (direct order pass).Perm order := by
  simp only [direct]
  split
  case isTrue => exact List.reverse_perm order
  case isFalse => exact .refl order

end Sweep
end CollectiveLabeling
