import CollectiveLabeling.Proofs.Hypergraph.Accepted
import Mathlib.Data.List.Forall2

namespace CollectiveLabeling

theorem exists_rel_of_mem {α β : Type} {R : α → β → Prop} {xs : List α} {ys : List β}
    (h : List.Forall₂ R xs ys) {y : β} (hy : y ∈ ys) : ∃ x ∈ xs, R x y := by
  induction h
  case nil => cases hy
  case cons x _ xs _ first _ hi =>
    obtain rfl | hy := List.mem_cons.mp hy
    case inl => exact ⟨x, by simp, first⟩
    case inr =>
      have ⟨x', hx, rel⟩ := hi hy
      exact ⟨x', by simp [hx], rel⟩

namespace Record

-- The same record, but for the order in which an edge names its members, and the numbers it gives
-- along with them.
inductive Reseated : Record → Record → Prop where
  | refl (r : Record) : Reseated r r
  | edge (r : Record) {costs : List (Int × Float)} : r.isEdge = true →
      (costs.map Prod.fst).Perm (r.costs.map Prod.fst) → Reseated r { r with costs }

namespace Reseated

variable {r r' : Record}

theorem ids (h : Reseated r r') : (r'.costs.map Prod.fst).Perm (r.costs.map Prod.fst) := by
  cases h
  case refl => exact .refl _
  case edge perm => exact perm

theorem members (h : Reseated r r') : r'.members.Perm r.members := by
  have perm := h.ids.map (· - 1)
  rwa [List.map_map, List.map_map] at perm

theorem isEdge (h : Reseated r r') : r'.isEdge = r.isEdge := by
  have length := h.ids.length_eq
  rw [List.length_map, List.length_map] at length
  rw [Record.isEdge, Record.isEdge, length]

theorem eq_of_node (h : Reseated r r') (node : r.isEdge = false) : r' = r := by
  cases h
  case refl => rfl
  case edge edge _ => cases node.symm.trans edge

theorem visits (h : Reseated r r') : r'.visits = r.visits := by
  cases h <;> rfl

end Reseated
end Record

-- The same graph, but for the order in which edges name their members.
structure Hypergraph.Reseated (g g' : Hypergraph) : Prop where
  nodes     : g'.nodes = g.nodes
  edges     : List.Forall₂ Record.Reseated g.edges.toList g'.edges.toList
  adjacency : g'.adjacency = g.adjacency

namespace Episode

structure Sorted.Reseated (s s' : Sorted) : Prop where
  nodes : s'.nodes = s.nodes
  edges : List.Forall₂ Record.Reseated s.edges.toList s'.edges.toList

namespace Sorted.Reseated

variable {s s' : Sorted}

theorem isEmpty (h : s.Reseated s') : s'.edges.isEmpty = s.edges.isEmpty := by
  have length := h.edges.length_eq
  simp only [Array.length_toList] at length
  simp only [Array.isEmpty, length]

theorem sortRecord {bound : Option Int} {t : Sorted} {r r' : Record} (h : s.Reseated s')
    (hr : r.Reseated r') (ht : Episode.sortRecord bound s r = .ok t) :
    ∃ t', Episode.sortRecord bound s' r' = .ok t' ∧ t.Reseated t' := by
  cases edge : r.isEdge
  case true =>
    have edge' := hr.isEdge.trans edge
    simp only [Episode.sortRecord, edge, edge', if_true] at ht ⊢
    cases ht
    refine ⟨_, rfl, h.nodes, ?_⟩
    simpa using List.rel_append h.edges (.cons hr .nil)
  case false =>
    obtain rfl := hr.eq_of_node edge
    simp only [Episode.sortRecord, edge, h.isEmpty, h.nodes, Bool.false_eq_true, if_false] at ht ⊢
    by_cases early : (!s.edges.isEmpty) = true
    case pos => rw [if_pos early] at ht; cases ht
    case neg =>
      rw [if_neg early] at ht ⊢
      by_cases allowed : labelAllowed bound r'.label = true
      case pos =>
        rw [if_pos allowed] at ht ⊢
        cases ht
        exact ⟨_, rfl, rfl, h.edges⟩
      case neg => rw [if_neg allowed] at ht; cases ht

theorem foldlM {bound : Option Int} {t : Sorted} {rs rs' : List Record} (h : s.Reseated s')
    (hr : List.Forall₂ Record.Reseated rs rs') (ht : rs.foldlM (Episode.sortRecord bound) s = .ok t) :
    ∃ t', rs'.foldlM (Episode.sortRecord bound) s' = .ok t' ∧ t.Reseated t' := by
  induction hr generalizing s s'
  case nil =>
    cases ht
    exact ⟨s', rfl, h⟩
  case cons first _ hi =>
    rw [List.foldlM_cons] at ht
    have ⟨_, ht₁, ht⟩ := Attempt.bind_eq_ok.mp ht
    have ⟨_, ht₁', h₁⟩ := h.sortRecord first ht₁
    have ⟨t', ht', ht⟩ := hi h₁ ht
    exact ⟨t', by rw [List.foldlM_cons, ht₁', Attempt.ok_bind, ht'], ht⟩

theorem checkIds (h : s.Reseated s') (hc : Episode.checkIds s = .ok ⟨⟩) :
    Episode.checkIds s' = .ok ⟨⟩ := by
  simp only [Episode.checkIds, h.isEmpty, h.nodes] at hc ⊢
  by_cases headless : (s.nodes.isEmpty && !s.edges.isEmpty) = true
  case pos => rw [if_pos headless] at hc; cases hc
  case neg =>
    rw [if_neg headless] at hc ⊢
    refine Attempt.forM_eq_ok.mpr fun r' hr' => Attempt.forM_eq_ok.mpr fun cost hcost => ?_
    have ⟨r, hr, same⟩ := exists_rel_of_mem h.edges hr'
    have mem := same.ids.mem_iff.mp (List.mem_map_of_mem hcost)
    have ⟨cost', hcost', he⟩ := List.mem_map.mp mem
    exact he ▸ Attempt.forM_eq_ok.mp (Attempt.forM_eq_ok.mp hc r hr) cost' hcost'

end Sorted.Reseated

theorem link_comm (e : Nat) (adjacency : Array (List Int)) (m m' : Int) :
    link e (link e adjacency m) m' = link e (link e adjacency m') m := by
  refine Array.ext_getElem? fun i => ?_
  simp only [link, Array.getElem?_modify]
  by_cases h : m.toNat = i <;> by_cases h' : m'.toNat = i <;> simp [h, h']

-- In which order the members of an edge are gone through does not matter to the lists of edges.
theorem adjacency_reseated {s s' : Sorted} (h : s.Reseated s') : adjacency s' = adjacency s := by
  have linked {rs rs' : List Record} (hr : List.Forall₂ Record.Reseated rs rs') (e : Nat)
      (start : Array (List Int)) :
      (rs'.zipIdx e).foldl (fun a x => x.1.members.foldl (link x.2) a) start =
        (rs.zipIdx e).foldl (fun a x => x.1.members.foldl (link x.2) a) start := by
    induction hr generalizing e start
    case nil => rfl
    case cons r r' rs rs' first _ hi =>
      have same : r'.members.foldl (link e) start = r.members.foldl (link e) start :=
        first.members.foldl_eq' (fun m _ m' _ a => link_comm e a m m') start
      simp only [List.zipIdx_cons, List.foldl_cons, same]
      exact hi (e + 1) _
  rw [adjacency, adjacency, h.nodes]
  exact linked h.edges 0 _

-- In another order of their members the edges are accepted as they were, and make the same graph.
theorem toGraph_reseated {bound : Option Int} {records records' : List Record} {g : Hypergraph}
    (h : List.Forall₂ Record.Reseated records records') (hg : toGraph bound records = .ok g) :
    ∃ g', toGraph bound records' = .ok g' ∧ g.Reseated g' := by
  obtain ⟨s, hs, hc, rfl⟩ := toGraph_eq_ok.mp hg
  have start : Sorted.Reseated {} {} := ⟨rfl, .nil⟩
  have ⟨s', hs', hr⟩ := start.foldlM h hs
  exact ⟨graphOf s', toGraph_eq_ok.mpr ⟨s', hs', hr.checkIds hc, rfl⟩, hr.nodes, hr.edges,
    adjacency_reseated hr⟩

end Episode

namespace Hypergraph.Reseated

variable {g g' : Hypergraph} {e : Int} {r : Record}

theorem edge (h : g.Reseated g') (he : g.edge e = .ok r) : ∃ r', g'.edge e = .ok r' ∧ r.Reseated r' := by
  have ⟨p, place, found⟩ := lookup_eq_ok.mp he
  have size : g'.edges.size = g.edges.size := by simpa using h.edges.length_eq.symm
  obtain ⟨lt, rfl⟩ := Array.getElem?_eq_some_iff.mp found
  refine ⟨g'.edges[p], lookup_eq_ok.mpr ⟨p, size ▸ place, Array.getElem?_eq_getElem (size ▸ lt)⟩, ?_⟩
  have same := h.edges.get (i := p) (by simpa using lt) (by simpa [size] using lt)
  rwa [List.get_eq_getElem, List.get_eq_getElem, Array.getElem_toList, Array.getElem_toList] at same

end Hypergraph.Reseated
end CollectiveLabeling
