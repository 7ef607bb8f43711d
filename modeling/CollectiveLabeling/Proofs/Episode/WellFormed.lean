import CollectiveLabeling.Proofs.Hypergraph.Join
import CollectiveLabeling.Proofs.Scene.Setup

namespace CollectiveLabeling

open Step

namespace Prior

variable {p : Prior}

-- A prior with a count for every label it is for, zero included.
def Full (p : Prior) : Prop :=
  (p.counts.size : Int) = p.labels + 1

theorem full_ofLabels {labels : Int} (h : ofLabels labels = .ok p) : p.Full := by
  simp only [ofLabels] at h
  split at h <;> cases h
  case isFalse nonneg =>
    simp only [Full, Array.size_replicate]
    omega

end Prior

namespace Episode

-- Records that can be sorted: the nodes come before the edges, and their labels lie between zero and the
-- bound, if there is one.
structure Sortable (bound : Option Int) (records : List Record) : Prop where
  order  : records.Pairwise fun r r' => r.isEdge = true → r'.isEdge = true
  labels : ∀ r ∈ records, r.isEdge = false → 0 ≤ r.label ∧ ∀ k ∈ bound, r.label ≤ k

-- An episode that can be sorted and whose edges name nodes.
structure WellFormed (bound : Option Int) (records : List Record) : Prop extends
    Sortable bound records where
  members : ∀ r ∈ records, r.isEdge = true → ∀ id ∈ r.costs.map Prod.fst,
    1 ≤ id ∧ id ≤ (nodes records).length

variable {bound : Option Int} {records : List Record} {g : Hypergraph} {prior prior' : Option Prior}

theorem labelAllowed_iff {label : Int} :
    labelAllowed bound label = true ↔ 0 ≤ label ∧ ∀ k ∈ bound, label ≤ k := by
  cases bound <;> simp [labelAllowed]

theorem eq_nodes_append_edges (h : records.Pairwise fun r r' => r.isEdge = true → r'.isEdge = true) :
    records = nodes records ++ edges records := by
  induction records
  case nil => rfl
  case cons r records hi =>
    have ⟨first, rest⟩ := List.pairwise_cons.mp h
    cases edge : r.isEdge
    case false =>
      rw [nodes, edges, List.filter_cons_of_pos (by simp [edge]), List.filter_cons_of_neg (by simp [edge]),
        List.cons_append]
      exact congrArg (r :: ·) (hi rest)
    case true =>
      have all : ∀ r' ∈ r :: records, r'.isEdge = true :=
        List.forall_mem_cons.mpr ⟨edge, fun r' hr => first r' hr edge⟩
      have none : nodes (r :: records) = [] := List.filter_eq_nil_iff.mpr (by simpa using all)
      rw [none, edges, List.filter_eq_self.mpr all, List.nil_append]

theorem sortable_append {nodes edges : List Record}
    (hn : ∀ r ∈ nodes, r.isEdge = false ∧ labelAllowed bound r.label = true)
    (he : ∀ r ∈ edges, r.isEdge = true) : Sortable bound (nodes ++ edges) := by
  constructor
  case order =>
    refine List.pairwise_append.mpr ⟨?_, ?_, fun _ _ r hr _ => he r hr⟩
    case refine_1 =>
      refine List.pairwise_of_forall_mem_list fun r hr _ _ edge => ?_
      exact absurd edge (by simp [(hn r hr).left])
    case refine_2 => exact List.pairwise_of_forall_mem_list fun _ _ r hr _ => he r hr
  case labels =>
    intro r hr node
    cases List.mem_append.mp hr
    case inl hr => exact labelAllowed_iff.mp (hn r hr).right
    case inr hr => exact absurd (he r hr) (by simp [node])

theorem Sorted.Holds.sortable {s : Sorted} (h : s.Holds bound records) : Sortable bound records :=
  h.records ▸ sortable_append (by simpa using h.nodes) (by simpa using h.edges)

theorem Sortable.sort_ok (h : Sortable bound records) :
    sort bound records = .ok ⟨(nodes records).toArray, (edges records).toArray⟩ := by
  have node : ∀ r ∈ nodes records, r.isEdge = false ∧ labelAllowed bound r.label = true := by
    intro r hr
    have ⟨mem, node⟩ := List.mem_filter.mp hr
    have node : r.isEdge = false := by simpa using node
    exact ⟨node, labelAllowed_iff.mpr (h.labels r mem node)⟩
  have edge : ∀ r ∈ edges records, r.isEdge = true := fun r hr => (List.mem_filter.mp hr).right
  have sorted := Episode.sort_ok node edge
  rwa [← eq_nodes_append_edges h.order] at sorted

theorem parts_of_toGraph (h : toGraph bound records = .ok g) :
    g.nodes.toList = nodes records ∧ g.edges.toList = edges records := by
  have ⟨s, hs, _, hg⟩ := toGraph_eq_ok.mp h
  exact hg ▸ ⟨(holds_of_sort hs).nodes_eq, (holds_of_sort hs).edges_eq⟩

theorem wellFormed_of_toGraph (h : toGraph bound records = .ok g) : WellFormed bound records := by
  have ⟨s, hs, hc, _⟩ := toGraph_eq_ok.mp h
  have holds := holds_of_sort hs
  refine { holds.sortable with members := fun r hr edge id hid => ?_ }
  have ⟨cost, hcost, is⟩ := List.mem_map.mp hid
  have mem : r ∈ s.edges.toList := holds.edges_eq ▸ List.mem_filter.mpr ⟨hr, edge⟩
  have member : cost.1 - 1 ∈ r.members := List.mem_map_of_mem hcost
  have size : (nodes records).length = s.nodes.size := by
    rw [nodes, ← holds.nodes_eq, Array.length_toList]
  have := members_of_checkIds hc (Array.mem_toList_iff.mp mem) member
  omega

theorem WellFormed.toGraph_ok (h : WellFormed bound records) : ∃ g, toGraph bound records = .ok g := by
  have range : ∀ r ∈ edges records, ∀ m ∈ r.members, 0 ≤ m ∧ m < (nodes records).length := by
    intro r hr m hm
    have ⟨mem, edge⟩ := List.mem_filter.mp hr
    have ⟨cost, hcost, he⟩ := List.mem_map.mp hm
    have := h.members r mem edge cost.1 (List.mem_map_of_mem hcost)
    simp only at he
    omega
  -- An edge has a member, so where there are edges there are nodes.
  have bare : nodes records = [] → edges records = [] := by
    intro none
    refine List.eq_nil_iff_forall_not_mem.mpr fun r hr => ?_
    have edge : r.isEdge = true := (List.mem_filter.mp hr).right
    have ⟨cost, hcost⟩ := List.exists_mem_of_length_pos (Nat.zero_lt_of_lt (of_decide_eq_true edge))
    have := range r hr (cost.1 - 1) (List.mem_map_of_mem hcost)
    simp only [none, List.length_nil] at this
    omega
  have checked : checkIds ⟨(nodes records).toArray, (edges records).toArray⟩ = .ok ⟨⟩ :=
    checkIds_eq_ok.mpr ⟨by simpa using bare, by simpa using range⟩
  exact ⟨_, toGraph_eq_ok.mpr ⟨_, h.sort_ok, checked, rfl⟩⟩

-- A prior that goes as far as the labels of some nodes takes note of them all.
theorem exists_observeNodes {p : Prior} (full : p.Full) {nodes : List Record}
    (range : ∀ r ∈ nodes, 0 ≤ r.label ∧ r.label ≤ p.labels) :
    ∃ p', observeNodes nodes p = .ok ⟨⟩ p' := by
  cases nodes
  case nil => exact ⟨p, rfl⟩
  case cons r nodes =>
    have ⟨nonneg, le⟩ := range r (by simp)
    obtain ⟨labels, hl⟩ := Int.eq_ofNat_of_zero_le (Int.le_trans nonneg le)
    have counts : p.Counts labels := by
      unfold Prior.Full at full
      unfold Prior.Counts
      omega
    exact ⟨_, observeNodes_ok counts fun r hr => hl ▸ range r hr⟩

theorem load_of_toGraph (covered : ∀ p ∈ prior, p.Full ∧ ∀ k ∈ boundOf bound prior, k ≤ p.labels)
    (h : toGraph (boundOf bound prior) records = .ok g) :
    ∃ prior', load bound records prior = .ok g prior' := by
  cases prior
  case none => exact ⟨none, by simp [load, h]⟩
  case some p =>
    obtain ⟨full, above⟩ := covered p rfl
    have formed := wellFormed_of_toGraph h
    obtain ⟨k, hk⟩ : ∃ k, boundOf bound (some p) = some k := by
      cases bound <;> exact ⟨_, rfl⟩
    have range : ∀ r ∈ g.nodes.toList, 0 ≤ r.label ∧ r.label ≤ p.labels := by
      intro r hr
      obtain ⟨mem, node⟩ := List.mem_filter.mp ((parts_of_toGraph h).left ▸ hr)
      obtain ⟨nonneg, le⟩ := formed.labels r mem (by simpa using node)
      exact ⟨nonneg, Int.le_trans (le k hk) (above k hk)⟩
    obtain ⟨p', observed⟩ := exists_observeNodes full range
    exact ⟨some p', by simp [load, h, within, observed]⟩

theorem load_of_defect {d : Defect} (h : toGraph (boundOf bound prior) records = .error d) :
    load bound records prior = .error (Fault.raised (.defect d)) prior := by
  simp [load, h]

end Episode
end CollectiveLabeling
