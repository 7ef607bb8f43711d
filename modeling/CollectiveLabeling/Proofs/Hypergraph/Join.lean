import CollectiveLabeling.Proofs.Hypergraph.Within

namespace CollectiveLabeling

namespace Record

@[simp]
theorem isEdge_shift (o : Nat) (r : Record) : (r.shift o).isEdge = r.isEdge := by
  simp [isEdge, shift]

end Record

-- Two graphs side by side.
def Hypergraph.join (g h : Hypergraph) : Hypergraph where
  nodes     := g.nodes ++ h.nodes
  edges     := g.edges ++ h.edges.map (Record.shift g.nodes.size)
  adjacency := g.adjacency ++ h.adjacency.map (List.map (· + (g.edges.size : Int)))

namespace Hypergraph

variable {g h : Hypergraph} {labels : Nat}

theorem within_join_left (sound : g.Sound labels) : Within 0 0 g (g.join h) where
  nodes     := fun n hn => by
    rw [join, Nat.add_zero, Array.getElem?_append_left hn]
  edges     := fun e he => by
    have same : Record.shift 0 = id := funext Record.shift_zero
    rw [join, Nat.add_zero, Array.getElem?_append_left he, same, Option.map_id, id]
  adjacency := fun n hn => by
    rw [join, Nat.add_zero, Array.getElem?_append_left (sound.size ▸ hn)]
    simp

theorem within_join_right (sound : g.Sound labels) :
    Within g.nodes.size g.edges.size h (g.join h) where
  nodes     := fun n _ => by
    rw [join, Array.getElem?_append_right (Nat.le_add_left ..), Nat.add_sub_cancel]
  edges     := fun e _ => by
    rw [join, Array.getElem?_append_right (Nat.le_add_left ..), Nat.add_sub_cancel,
      Array.getElem?_map]
  adjacency := fun n _ => by
    rw [join, ← sound.size, Array.getElem?_append_right (Nat.le_add_left ..), Nat.add_sub_cancel,
      Array.getElem?_map]

end Hypergraph

namespace Episode

def nodes (rs : List Record) : List Record :=
  rs.filter (!·.isEdge)

def edges (rs : List Record) : List Record :=
  rs.filter Record.isEdge

-- Two episodes in one: the nodes of both and then the edges of both. The edges of the second name
-- their members by their new positions.
def join (rs rs' : List Record) : List Record :=
  (nodes rs ++ nodes rs') ++ (edges rs ++ (edges rs').map (Record.shift (nodes rs).length))

def Sorted.join (s s' : Sorted) : Sorted where
  nodes := s.nodes ++ s'.nodes
  edges := s.edges ++ s'.edges.map (Record.shift s.nodes.size)

section Sorting

variable {bound : Option Int} {nodes edges : List Record}

theorem foldlM_nodes (hn : ∀ r ∈ nodes, r.isEdge = false ∧ labelAllowed bound r.label = true)
    {s : Sorted} (none : s.edges = #[]) : nodes.foldlM (sortRecord bound) s =
      .ok { s with nodes := s.nodes ++ nodes.toArray } := by
  induction nodes generalizing s
  case nil => simp
  case cons r nodes hi =>
    have ⟨node, allowed⟩ := hn r (by simp)
    have sorted : sortRecord bound s r = .ok { s with nodes := s.nodes.push r } := by
      simp [sortRecord, node, none, allowed]
    have later := hi (fun r hr => hn r (by simp [hr])) (s := { s with nodes := s.nodes.push r }) none
    rw [List.foldlM_cons, sorted, Attempt.ok_bind, later]
    simp

theorem foldlM_edges (he : ∀ r ∈ edges, r.isEdge = true) (s : Sorted) :
    edges.foldlM (sortRecord bound) s = .ok { s with edges := s.edges ++ edges.toArray } := by
  induction edges generalizing s
  case nil => simp
  case cons r edges hi =>
    have sorted : sortRecord bound s r = .ok { s with edges := s.edges.push r } := by
      simp [sortRecord, he r (by simp)]
    rw [List.foldlM_cons, sorted, Attempt.ok_bind, hi fun r hr => he r (by simp [hr])]
    simp

-- An episode that lists its nodes before its edges can be sorted.
theorem sort_ok (hn : ∀ r ∈ nodes, r.isEdge = false ∧ labelAllowed bound r.label = true)
    (he : ∀ r ∈ edges, r.isEdge = true) :
    sort bound (nodes ++ edges) = .ok ⟨nodes.toArray, edges.toArray⟩ := by
  rw [sort, List.foldlM_append, foldlM_nodes hn rfl, Attempt.ok_bind, foldlM_edges he]
  simp

end Sorting

theorem checkIds_eq_ok {s : Sorted} : checkIds s = .ok ⟨⟩ ↔
    (s.nodes = #[] → s.edges = #[]) ∧ ∀ r ∈ s.edges, ∀ m ∈ r.members, 0 ≤ m ∧ m < s.nodes.size := by
  constructor
  case mp =>
    intro h
    refine ⟨fun none => ?_, fun r hr m hm => members_of_checkIds h hr hm⟩
    by_cases some : s.edges = #[]
    case pos => exact some
    case neg => simp [checkIds, none, some] at h
  case mpr =>
    intro ⟨hn, hm⟩
    have edges : ¬ (s.nodes.isEmpty && !s.edges.isEmpty) = true := by simpa using hn
    simp only [checkIds, edges]
    refine Attempt.forM_eq_ok.mpr fun r hr => Attempt.forM_eq_ok.mpr fun (id, x) hid => ?_
    have member : id - 1 ∈ r.members := List.mem_map.mpr ⟨(id, x), hid, rfl⟩
    have := hm r (Array.mem_toList_iff.mp hr) _ member
    exact checkId_eq_ok.mpr (by omega)

section Adjacency

variable {e q : Nat} {n : Int} {adjacency tail head : Array (List Int)} {ms : List Int}

theorem link_append (lt : n.toNat < adjacency.size) :
    link e (adjacency ++ tail) n = link e adjacency n ++ tail := by
  refine Array.ext_getElem? fun i => ?_
  simp only [link, Array.getElem?_modify, Array.getElem?_append, Array.size_modify]
  by_cases hi : i < adjacency.size
  case pos => simp only [hi, if_true]
  case neg =>
    have ne : n.toNat ≠ i := by omega
    simp only [hi, ne, if_false]

theorem size_foldl_link (e : Nat) (ms : List Int) (adjacency : Array (List Int)) :
    (ms.foldl (link e) adjacency).size = adjacency.size := by
  induction ms generalizing adjacency
  case nil => rfl
  case cons m ms hi => simp [hi, link]

theorem foldl_link_append (range : ∀ m ∈ ms, m.toNat < adjacency.size) :
    ms.foldl (link e) (adjacency ++ tail) = ms.foldl (link e) adjacency ++ tail := by
  induction ms generalizing adjacency
  case nil => rfl
  case cons m ms hi =>
    rw [List.foldl_cons, List.foldl_cons, link_append (range m (by simp))]
    exact hi fun m hm => by simpa [link] using range m (by simp [hm])

-- Edges of the second graph are linked behind those of the first.
theorem link_behind (nonneg : 0 ≤ n) :
    link (e + q) (head ++ adjacency.map (List.map (· + (q : Int)))) (n + head.size) =
      head ++ (link e adjacency n).map (List.map (· + (q : Int))) := by
  have place : (n + head.size).toNat = n.toNat + head.size := by omega
  have last (es : List Int) : (es.map (· + (q : Int))).getLast? = some ((e : Int) + q) ↔
      es.getLast? = some (e : Int) := by
    cases h : es.getLast? <;> simp [h]
  refine Array.ext_getElem? fun i => ?_
  simp only [link, place, Array.getElem?_modify, Array.getElem?_append, Array.getElem?_map]
  by_cases hi : i < head.size
  case pos =>
    have ne : n.toNat + head.size ≠ i := by omega
    simp only [hi, ne, if_true, if_false]
  case neg =>
    have same : n.toNat + head.size = i ↔ n.toNat = i - head.size := by omega
    simp only [hi, same, if_false]
    split
    case isFalse => rfl
    case isTrue =>
      simp only [Option.map_map]
      congr 1
      funext es
      simp only [Function.comp_apply, Int.natCast_add, last]
      split <;> simp

theorem foldl_link_behind (nonneg : ∀ m ∈ ms, 0 ≤ m) :
    (ms.map (· + (head.size : Int))).foldl (link (e + q))
        (head ++ adjacency.map (List.map (· + (q : Int)))) =
      head ++ (ms.foldl (link e) adjacency).map (List.map (· + (q : Int))) := by
  induction ms generalizing adjacency
  case nil => rfl
  case cons m ms hi =>
    rw [List.map_cons, List.foldl_cons, List.foldl_cons, link_behind (nonneg m (by simp))]
    exact hi fun m hm => nonneg m (by simp [hm])

variable {edges : List (Record × Nat)}

theorem foldl_edges_append
    (range : ∀ x ∈ edges, ∀ m ∈ x.1.members, m.toNat < adjacency.size) :
    edges.foldl (fun a (r, e) => r.members.foldl (link e) a) (adjacency ++ tail) =
      edges.foldl (fun a (r, e) => r.members.foldl (link e) a) adjacency ++ tail := by
  induction edges generalizing adjacency
  case nil => rfl
  case cons x edges hi =>
    simp only [List.foldl_cons, foldl_link_append (range x (by simp))]
    refine hi fun y hy m hm => ?_
    rw [size_foldl_link]
    exact range y (by simp [hy]) m hm

theorem foldl_edges_behind (nonneg : ∀ x ∈ edges, ∀ m ∈ x.1.members, 0 ≤ m) :
    (edges.map fun (r, e) => (r.shift head.size, e + q)).foldl
        (fun a (r, e) => r.members.foldl (link e) a)
        (head ++ adjacency.map (List.map (· + (q : Int)))) =
      head ++ (edges.foldl (fun a (r, e) => r.members.foldl (link e) a) adjacency).map
        (List.map (· + (q : Int))) := by
  induction edges generalizing adjacency
  case nil => rfl
  case cons x edges hi =>
    simp only [List.map_cons, List.foldl_cons, Record.members_shift,
      foldl_link_behind (nonneg x (by simp))]
    exact hi fun y hy => nonneg y (by simp [hy])

end Adjacency

section Join

variable {s s' : Sorted} {bound : Option Int} {rs rs' : List Record} {g h : Hypergraph}

theorem members_of_zipIdx {xs : Array Record} {nodes k : Nat}
    (range : ∀ r ∈ xs, ∀ m ∈ r.members, 0 ≤ m ∧ m < nodes) {x : Record × Nat}
    (hx : x ∈ xs.toList.zipIdx k) : ∀ m ∈ x.1.members, 0 ≤ m ∧ m < nodes :=
  range x.1 (Array.mem_toList_iff.mp (List.fst_mem_of_mem_zipIdx hx))

theorem adjacency_join (range : ∀ r ∈ s.edges, ∀ m ∈ r.members, 0 ≤ m ∧ m < s.nodes.size)
    (range' : ∀ r ∈ s'.edges, ∀ m ∈ r.members, 0 ≤ m ∧ m < s'.nodes.size) :
    adjacency (s.join s') =
      adjacency s ++ (adjacency s').map (List.map (· + (s.edges.size : Int))) := by
  have edges : (s.join s').edges.toList.zipIdx = s.edges.toList.zipIdx ++
      s'.edges.toList.zipIdx.map fun (r, e) => (r.shift (adjacency s).size, e + s.edges.size) := by
    simp only [Sorted.join, (linked_adjacency s).size, Array.toList_append, Array.toList_map,
      List.zipIdx_append, List.zipIdx_map, Nat.zero_add, Array.length_toList,
      List.zipIdx_eq_map_add (i := s.edges.size), List.map_map]
    congr 2
    funext x
    simp [Nat.add_comm]
  have empty : (Array.replicate (s.join s').nodes.size [] : Array (List Int)) =
      Array.replicate s.nodes.size [] ++
        (Array.replicate s'.nodes.size []).map (List.map (· + (s.edges.size : Int))) := by
    simp [Sorted.join, Array.replicate_append_replicate]
  have inside : ∀ x ∈ s.edges.toList.zipIdx, ∀ m ∈ x.1.members,
      m.toNat < (Array.replicate s.nodes.size ([] : List Int)).size := by
    intro x hx m hm
    have := members_of_zipIdx range hx m hm
    rw [Array.size_replicate]
    omega
  rw [adjacency, edges, empty, List.foldl_append, foldl_edges_append inside]
  exact foldl_edges_behind fun x hx m hm => (members_of_zipIdx range' hx m hm).left

theorem checkIds_join (hs : checkIds s = .ok ⟨⟩) (hs' : checkIds s' = .ok ⟨⟩) :
    checkIds (s.join s') = .ok ⟨⟩ := by
  have ⟨bare, range⟩ := checkIds_eq_ok.mp hs
  have ⟨bare', range'⟩ := checkIds_eq_ok.mp hs'
  refine checkIds_eq_ok.mpr ⟨fun h => ?bare, fun r hr m hm => ?range⟩
  case bare =>
    have ⟨hn, hn'⟩ := Array.append_eq_empty_iff.mp h
    simp [Sorted.join, bare hn, bare' hn']
  case range =>
    simp only [Sorted.join, Array.size_append]
    cases Array.mem_append.mp hr
    case inl hr =>
      have := range r hr m hm
      omega
    case inr hr =>
      have ⟨r', hr', he⟩ := Array.mem_map.mp hr
      subst he
      rw [Record.members_shift] at hm
      have ⟨m', hm', he⟩ := List.mem_map.mp hm
      have := range' r' hr' m' hm'
      omega

theorem sort_join (hs : sort bound rs = .ok s) (hs' : sort bound rs' = .ok s') :
    sort bound (join rs rs') = .ok (s.join s') := by
  have holds := holds_of_sort hs
  have holds' := holds_of_sort hs'
  have allowed : ∀ r ∈ nodes rs ++ nodes rs', r.isEdge = false ∧ labelAllowed bound r.label = true := by
    rw [nodes, nodes, ← holds.nodes_eq, ← holds'.nodes_eq]
    intro r hr
    cases List.mem_append.mp hr
    case inl hr => exact holds.nodes r (Array.mem_toList_iff.mp hr)
    case inr hr => exact holds'.nodes r (Array.mem_toList_iff.mp hr)
  have edges : ∀ r ∈ edges rs ++ (edges rs').map (Record.shift (nodes rs).length), r.isEdge = true := by
    intro r hr
    cases List.mem_append.mp hr
    case inl hr => exact (List.mem_filter.mp hr).right
    case inr hr =>
      have ⟨r', hr', he⟩ := List.mem_map.mp hr
      rw [← he, Record.isEdge_shift]
      exact (List.mem_filter.mp hr').right
  rw [join, sort_ok allowed edges]
  simp only [Sorted.join, Episode.nodes, Episode.edges, ← holds.nodes_eq, ← holds'.nodes_eq,
    ← holds.edges_eq, ← holds'.edges_eq]
  simp

theorem size_toGraph (hg : toGraph bound rs = .ok g) : g.nodes.size = (nodes rs).length := by
  have ⟨s, hs, _, he⟩ := toGraph_eq_ok.mp hg
  rw [nodes, ← (holds_of_sort hs).nodes_eq, Array.length_toList, ← he]
  rfl

-- The graph of two episodes in one is the graphs of both side by side.
theorem toGraph_join (hg : toGraph bound rs = .ok g) (hh : toGraph bound rs' = .ok h) :
    toGraph bound (join rs rs') = .ok (g.join h) := by
  have ⟨s, hs, hc, he⟩ := toGraph_eq_ok.mp hg
  have ⟨s', hs', hc', he'⟩ := toGraph_eq_ok.mp hh
  subst he he'
  refine toGraph_eq_ok.mpr ⟨_, sort_join hs hs', checkIds_join hc hc', ?_⟩
  rw [graphOf, adjacency_join (checkIds_eq_ok.mp hc).right (checkIds_eq_ok.mp hc').right]
  rfl

end Join
end Episode
end CollectiveLabeling
