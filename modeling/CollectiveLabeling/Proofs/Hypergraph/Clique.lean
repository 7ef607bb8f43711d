import CollectiveLabeling.Hypergraph.Clique
import CollectiveLabeling.Proofs.Hypergraph.Incidence

namespace CollectiveLabeling

section Pairs

variable {α : Type} {a b : α} {xs : List α}

-- Different items of a list are paired, one before the other.
theorem paired_iff (ne : a ≠ b) :
    (a, b) ∈ pairsOf xs ∨ (b, a) ∈ pairsOf xs ↔ a ∈ xs ∧ b ∈ xs := by
  induction xs
  case nil => simp [pairsOf]
  case cons x xs hi =>
    simp only [pairsOf, List.mem_append, List.mem_map, Prod.mk.injEq, List.mem_cons]
    grind

variable [BEq α] [LawfulBEq α]

@[simp]
theorem mem_distinct : a ∈ distinct xs ↔ a ∈ xs := by
  induction xs
  case nil => simp [distinct]
  case cons x xs hi => by_cases same : a = x <;> simp [distinct, hi, same]

theorem nodup_distinct (xs : List α) : (distinct xs).Nodup := by
  induction xs
  case nil => simp [distinct]
  case cons x xs hi => exact List.nodup_cons.mpr ⟨by simp, hi.filter _⟩

end Pairs

theorem orderPair_of_lt {u v : Int} (h : u < v) : orderPair (u, v) = (u, v) :=
  if_pos (Int.le_of_lt h)

theorem orderPair_of_gt {u v : Int} (h : v < u) : orderPair (u, v) = (v, u) :=
  if_neg (Int.not_le.mpr h)

namespace Hypergraph

-- Two different members of one edge.
def Beside (g : Hypergraph) (u v : Int) : Prop :=
  u ≠ v ∧ ∃ r ∈ g.edges, u ∈ r.members ∧ v ∈ r.members

variable {g : Hypergraph} {bound : Option Int} {records : List Record} {u v : Int} {p : Int × Int}

theorem Beside.symm (h : g.Beside u v) : g.Beside v u :=
  have ⟨ne, r, hr, hu, hv⟩ := h
  ⟨ne.symm, r, hr, hv, hu⟩

theorem Beside.comm : g.Beside u v ↔ g.Beside v u :=
  ⟨Beside.symm, Beside.symm⟩

theorem mem_joinedPairs : p ∈ g.joinedPairs ↔ p.1 < p.2 ∧ g.Beside p.1 p.2 := by
  simp only [joinedPairs, List.mem_flatMap, List.mem_map, List.mem_filter, decide_eq_true_eq]
  constructor
  case mp =>
    rintro ⟨r, hr, ⟨u, v⟩, ⟨paired, ne⟩, rfl⟩
    have ⟨hu, hv⟩ := (paired_iff ne).mp (.inl paired)
    have beside : g.Beside u v := ⟨ne, r, Array.mem_toList_iff.mp hr, hu, hv⟩
    cases Int.lt_or_gt_of_ne ne
    case inl lt => simpa [orderPair_of_lt lt, lt] using beside
    case inr gt => simpa [orderPair_of_gt gt, gt] using beside.symm
  case mpr =>
    intro ⟨lt, ne, r, hr, hu, hv⟩
    refine ⟨r, Array.mem_toList_iff.mpr hr, ?_⟩
    cases (paired_iff ne).mpr ⟨hu, hv⟩
    case inl paired => exact ⟨(p.1, p.2), ⟨paired, ne⟩, orderPair_of_lt lt⟩
    case inr paired => exact ⟨(p.2, p.1), ⟨paired, ne.symm⟩, orderPair_of_gt lt⟩

theorem mem_cliqueEdges : p ∈ g.cliqueEdges ↔ p.1 < p.2 ∧ g.Beside p.1 p.2 := by
  simp [cliqueEdges, mem_joinedPairs]

theorem orderPair_mem_cliqueEdges : orderPair (u, v) ∈ g.cliqueEdges ↔ g.Beside u v := by
  rcases Int.lt_trichotomy u v with lt | rfl | gt
  case inl => simp [orderPair_of_lt lt, mem_cliqueEdges, lt]
  case inr.inl => simp [orderPair, mem_cliqueEdges, Beside]
  case inr.inr => simp [orderPair_of_gt gt, mem_cliqueEdges, gt, Beside.comm]

theorem Beside.range {labels : Nat} (sound : g.Sound labels) (h : g.Beside u v) :
    (0 ≤ u ∧ u < g.nodes.size) ∧ 0 ≤ v ∧ v < g.nodes.size :=
  have ⟨_, r, hr, hu, hv⟩ := h
  ⟨sound.members r hr u hu, sound.members r hr v hv⟩

theorem lt_of_neighbors {labels n : Nat} {near : List (Int × Int)} (sound : g.Sound labels)
    (h : g.neighbors n = .ok near) : n < g.nodes.size := by
  have ⟨es, listed, _⟩ := Attempt.bind_eq_ok.mp h
  have ⟨_, place, _⟩ := lookup_eq_ok.mp listed
  rw [← sound.size]
  by_contra beyond
  have none := Index.place?_eq_none_iff.mpr (.inr (Int.ofNat_le.mpr (Nat.le_of_not_lt beyond)))
  exact nomatch none.symm.trans place

theorem mem_neighbors (built : Episode.toGraph bound records = .ok g) {n : Nat}
    {near : List (Int × Int)} (h : g.neighbors n = .ok near) :
    v ∈ near.map Prod.snd ↔ g.Beside n v := by
  have ⟨_, sound⟩ := Episode.exists_sound_toGraph built
  cases (neighbors_toGraph built (lt_of_neighbors sound h)).symm.trans h
  simp only [List.map_flatMap, List.map_map, Function.comp_def, List.map_id', List.mem_flatMap,
    mem_edgesAt]
  constructor
  case mp =>
    rintro ⟨e, ⟨k, ms, rfl, hms, mem⟩, hv⟩
    have ⟨hv, ne⟩ := List.mem_filter.mp (across_eq hms n ▸ hv)
    have ⟨r, found, same⟩ := members_natCast.mp hms
    exact ⟨(of_decide_eq_true ne).symm, r, Array.mem_of_getElem? found, same ▸ mem, same ▸ hv⟩
  case mpr =>
    intro ⟨ne, r, hr, mem, hv⟩
    have ⟨k, found⟩ := Array.mem_iff_getElem?.mp hr
    have hms := members_natCast.mpr ⟨r, found, rfl⟩
    refine ⟨k, ⟨k, r.members, rfl, hms, mem⟩, ?_⟩
    exact across_eq hms n ▸ List.mem_filter.mpr ⟨hv, decide_eq_true ne.symm⟩

-- The edges at each node, the neighbors of each node and the pairs of nodes tell of the same edges.
structure Concordant (g : Hypergraph) : Prop where
  size      : g.adjacency.size = g.nodes.size
  incident  : ∀ n < g.nodes.size, ∃ es, g.incident n = .ok es ∧ es.Pairwise (· < ·) ∧
    ∀ e, e ∈ es ↔ ∃ (k : Nat) (ms : List Int), e = k ∧ g.members k = .ok ms ∧ (n : Int) ∈ ms
  entries   : (g.adjacency.toList.map List.length).sum =
    (g.edges.toList.map (·.members.dedup.length)).sum
  neighbors : ∀ n < g.nodes.size, ∃ near, g.neighbors n = .ok near ∧
    (∀ x ∈ near, ∃ (k : Nat) (ms : List Int), x.1 = k ∧ g.members k = .ok ms) ∧
    ∀ (k : Nat) (ms : List Int), g.members k = .ok ms → ∀ m,
      near.count ((k : Int), m) = if m ≠ n ∧ (n : Int) ∈ ms then ms.count m else 0
  joined    : ∀ u < g.nodes.size, ∀ v < g.nodes.size, ∃ near near',
    g.neighbors u = .ok near ∧ g.neighbors v = .ok near' ∧
    (orderPair (u, v) ∈ g.cliqueEdges ↔ u ≠ v ∧ (v : Int) ∈ near.map Prod.snd) ∧
    (u ≠ v ∧ (v : Int) ∈ near.map Prod.snd ↔ (u : Int) ∈ near'.map Prod.snd)
  ends      : ∀ p ∈ g.cliqueEdges, 0 ≤ p.1 ∧ p.1 < p.2 ∧ p.2 < g.nodes.size

theorem concordant_toGraph (built : Episode.toGraph bound records = .ok g) : g.Concordant := by
  have ⟨_, sound⟩ := Episode.exists_sound_toGraph built
  constructor
  case size => exact sound.size
  case incident =>
    exact fun n hn => ⟨_, incident_toGraph built hn, g.edgesAt_ascending n, fun _ => mem_edgesAt⟩
  case entries => exact sum_length_adjacency built
  case neighbors =>
    refine fun n hn => ⟨_, neighbors_toGraph built hn, fun x hx => ?_, fun k ms hms m => count_neighbors hms⟩
    have ⟨e, he, hx⟩ := List.mem_flatMap.mp hx
    have ⟨m, _, same⟩ := List.mem_map.mp hx
    have ⟨k, ms, hk, hms, _⟩ := mem_edgesAt.mp he
    exact ⟨k, ms, same ▸ hk, hms⟩
  case joined =>
    intro u hu v hv
    refine ⟨_, _, neighbors_toGraph built hu, neighbors_toGraph built hv, ?_, ?_⟩
    all_goals
      simp only [mem_neighbors built (neighbors_toGraph built hu),
        mem_neighbors built (neighbors_toGraph built hv)]
    case refine_1 =>
      have ne (h : g.Beside u v) : u ≠ v := fun same => h.left (Int.ofNat_inj.mpr same)
      exact orderPair_mem_cliqueEdges.trans ⟨fun h => ⟨ne h, h⟩, And.right⟩
    case refine_2 =>
      have ne (h : g.Beside v u) : u ≠ v := fun same => h.left (Int.ofNat_inj.mpr same.symm)
      exact ⟨fun h => h.right.symm, fun h => ⟨ne h, h.symm⟩⟩
  case ends =>
    intro p hp
    have ⟨lt, beside⟩ := mem_cliqueEdges.mp hp
    have ⟨first, second⟩ := beside.range sound
    exact ⟨first.left, lt, second.right⟩

-- An edge that names a node again after another, and a second edge at that other node.
theorem concordant_toGraph_repeated :
    let triple : Record := { costs := [(1, 1.0), (2, 1.0), (1, 1.0)] }
    let pair : Record := { costs := [(2, 1.0), (3, 1.0)] }
    let g : Hypergraph := {
      nodes     := #[{}, {}, {}]
      edges     := #[triple, pair]
      adjacency := #[[0], [0, 1], [1]] }
    Episode.toGraph none [{}, {}, {}, triple, pair] = .ok g ∧ g.Concordant := by
  intro triple pair g
  have built : Episode.toGraph none [{}, {}, {}, triple, pair] = .ok g := by rfl
  exact ⟨built, concordant_toGraph built⟩

end Hypergraph
end CollectiveLabeling
