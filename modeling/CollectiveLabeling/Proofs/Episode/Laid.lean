import CollectiveLabeling.Proofs.Episode.WellFormed
import CollectiveLabeling.Proofs.Hypergraph.Clique

namespace CollectiveLabeling

namespace Episode

-- Records of nodes with these labels, and of edges with these members.
structure Laid (labels : List Nat) (members : List (List Nat)) (nodes edges : List Record) : Prop where
  nodes : nodes.map Record.costs = labels.map fun (label : Nat) => [((label : Int), 1.0)]
  edges : edges.map Record.costs = members.map fun ms => ms.map fun (m : Nat) => ((m : Int) + 1, 1.0)

namespace Laid

variable {labels : List Nat} {members : List (List Nat)} {nodes edges : List Record} {r : Record}
  {bound : Nat} (h : Laid labels members nodes edges)
include h

theorem length_nodes : nodes.length = labels.length := by
  simpa using congrArg List.length h.nodes

theorem costs_node (hr : r ∈ nodes) : ∃ label ∈ labels, r.costs = [((label : Int), 1.0)] := by
  have mem := List.mem_map_of_mem (f := Record.costs) hr
  rw [h.nodes] at mem
  simpa [eq_comm] using mem

theorem costs_edge (hr : r ∈ edges) :
    ∃ ms ∈ members, r.costs = ms.map fun (m : Nat) => ((m : Int) + 1, 1.0) := by
  have mem := List.mem_map_of_mem (f := Record.costs) hr
  rw [h.edges] at mem
  simpa [eq_comm] using mem

theorem labels_eq : nodes.map Record.label = labels.map fun (label : Nat) => (label : Int) := by
  have read : Record.label = fun r : Record => ((r.costs.map Prod.fst).head?).getD 0 := by
    funext r
    cases hc : r.costs <;> simp [Record.label, hc]
  rw [read]
  have := congrArg (List.map fun costs : List (Int × Float) => ((costs.map Prod.fst).head?).getD 0) h.nodes
  simpa [Function.comp_def] using this

theorem isEdge_node (hr : r ∈ nodes) : r.isEdge = false := by
  have ⟨_, _, costs⟩ := h.costs_node hr
  simp [Record.isEdge, costs]

theorem members_eq : edges.map Record.members = members.map fun ms => ms.map fun (m : Nat) => (m : Int) := by
  have read : Record.members = fun r : Record => r.costs.map fun cost => cost.1 - 1 := rfl
  have := congrArg (List.map (List.map fun (cost : Int × Float) => cost.1 - 1)) h.edges
  simpa [read, Function.comp_def] using this

-- As many nodes have a label as the list of labels has entries of it.
theorem countP_label (k : Nat) : nodes.countP (·.label = (k : Int)) = labels.count k := by
  have same : nodes.countP (·.label = (k : Int)) = (nodes.map Record.label).count (k : Int) := by
    rw [List.count, List.countP_map]
    exact List.countP_congr fun r _ => by simp
  rw [same, h.labels_eq, List.count, List.count, List.countP_map]
  exact List.countP_congr fun label _ => by simp only [Function.comp_apply, beq_iff_eq, Int.ofNat_inj]

variable (large : ∀ ms ∈ members, 1 < ms.length)
include large

theorem isEdge_edge (hr : r ∈ edges) : r.isEdge = true := by
  have ⟨ms, hm, costs⟩ := h.costs_edge hr
  simpa [Record.isEdge, costs] using large ms hm

theorem parts : Episode.nodes (nodes ++ edges) = nodes ∧ Episode.edges (nodes ++ edges) = edges := by
  have node : ∀ r ∈ nodes, r.isEdge = false := fun r => h.isEdge_node
  have edge : ∀ r ∈ edges, r.isEdge = true := fun r => h.isEdge_edge large
  constructor
  case left =>
    have own : nodes.filter (!·.isEdge) = nodes := List.filter_eq_self.mpr (by simpa using node)
    have other : edges.filter (!·.isEdge) = [] := List.filter_eq_nil_iff.mpr (by simpa using edge)
    rw [Episode.nodes, List.filter_append, own, other, List.append_nil]
  case right =>
    have own : edges.filter Record.isEdge = edges := List.filter_eq_self.mpr edge
    have other : nodes.filter Record.isEdge = [] := List.filter_eq_nil_iff.mpr (by simpa using node)
    rw [Episode.edges, List.filter_append, own, other, List.nil_append]

variable (inside : ∀ ms ∈ members, ∀ m ∈ ms, m < labels.length) (range : ∀ label ∈ labels, label ≤ bound)
include inside range

theorem wellFormed : WellFormed (some (bound : Int)) (nodes ++ edges) := by
  have node : ∀ r ∈ nodes, r.isEdge = false ∧ labelAllowed (some (bound : Int)) r.label = true := by
    intro r hr
    have ⟨label, hl, costs⟩ := h.costs_node hr
    have read : r.label = (label : Int) := by simp [Record.label, costs]
    have le := range label hl
    refine ⟨h.isEdge_node hr, labelAllowed_iff.mpr ?_⟩
    rw [read]
    exact ⟨Int.natCast_nonneg label, by simpa using Int.ofNat_le.mpr le⟩
  refine { sortable_append node fun r hr => h.isEdge_edge large hr with members := fun r hr edge id hid => ?_ }
  cases List.mem_append.mp hr
  case inl hr => exact absurd edge (by simp [h.isEdge_node hr])
  case inr hr =>
    obtain ⟨ms, hm, costs⟩ := h.costs_edge hr
    rw [costs] at hid
    obtain ⟨m, mem, rfl⟩ : ∃ m ∈ ms, (m : Int) + 1 = id := by simpa using hid
    have lt := inside ms hm m mem
    rw [(h.parts large).left, h.length_nodes]
    omega

theorem toGraph_ok : ∃ g, toGraph (some (bound : Int)) (nodes ++ edges) = .ok g ∧
    g.nodes.toList = nodes ∧ g.edges.toList = edges := by
  have ⟨g, hg⟩ := (h.wellFormed large inside range).toGraph_ok
  have ⟨found, found'⟩ := parts_of_toGraph hg
  have ⟨own, own'⟩ := h.parts large
  exact ⟨g, hg, found.trans own, found'.trans own'⟩

omit large inside range in
-- What is joined are different members of one edge.
theorem beside_iff {g : Hypergraph} (he : g.edges.toList = edges) {u v : Int} : g.Beside u v ↔
    u ≠ v ∧ ∃ ms ∈ members, (∃ a ∈ ms, (a : Int) = u) ∧ ∃ b ∈ ms, (b : Int) = v := by
  refine and_congr_right fun _ => ?_
  have through : (∃ r ∈ g.edges, u ∈ r.members ∧ v ∈ r.members) ↔
      ∃ ms ∈ edges.map Record.members, u ∈ ms ∧ v ∈ ms := by
    simp [← he]
  rw [through, h.members_eq]
  simp [eq_comm]

end Laid
end Episode
end CollectiveLabeling
