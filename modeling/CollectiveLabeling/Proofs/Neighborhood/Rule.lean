import CollectiveLabeling.Proofs.Hypergraph.Reseated
import CollectiveLabeling.Proofs.Neighborhood.Share

namespace CollectiveLabeling

open Step

open CollectiveLabeling.Hypergraph (labelOf)

namespace Hypergraph

variable {g g' : Hypergraph} {es : List Int} {edges : List Record}

theorem Sound.edges_ok {labels : Nat} {n : Int} (h : g.Sound labels) (hi : g.incident n = .ok es) :
    ∃ edges, es.mapM g.edge = .ok edges ∧ ∀ edge ∈ edges, edge ∈ g.edges :=
  Attempt.exists_mapM_eq_ok_and fun _ he =>
    have ⟨r, hr, edge⟩ := h.edge_ok hi he
    ⟨r, edge, hr⟩

theorem Reseated.mapM_edge (h : g.Reseated g') (he : es.mapM g.edge = .ok edges) :
    ∃ edges', es.mapM g'.edge = .ok edges' ∧ List.Forall₂ Record.Reseated edges edges' := by
  induction es generalizing edges
  case nil =>
    cases he
    exact ⟨[], rfl, .nil⟩
  case cons e es hi =>
    rw [List.mapM_cons] at he
    have ⟨r, first, he⟩ := Attempt.bind_eq_ok.mp he
    have ⟨rest, hr, he⟩ := Attempt.bind_eq_ok.mp he
    cases he
    have ⟨r', first', same⟩ := h.edge first
    have ⟨rest', hr', sames⟩ := hi hr
    exact ⟨r' :: rest', by rw [List.mapM_cons, first', hr']; rfl, .cons same sames⟩

end Hypergraph

namespace Augmenter

variable {a : Augmenter} {pred pred' : Array Int} {n : Int} {labels : Nat} {edge edge' : Record}

-- An edge lends the same however its members are ordered and whatever label the node itself has.
theorem share_reseated (h : edge.Reseated edge')
    (agree : ∀ m ∈ edge.members, m ≠ n → labelOf pred' m = labelOf pred m) :
    a.share labels pred' n edge' = a.share labels pred n edge := by
  have same (label : Int) : seats pred' n edge' label = seats pred n edge label := by
    rw [seats, h.members.countP_eq]
    refine List.countP_congr fun m hm => ?_
    by_cases own : m = n
    case pos => simp [own]
    case neg => simp [own, agree m hm own]
  simp only [share, h.visits, same]

theorem flatMap_share_reseated {edges edges' : List Record}
    (h : List.Forall₂ Record.Reseated edges edges')
    (agree : ∀ edge ∈ edges, ∀ m ∈ edge.members, m ≠ n → labelOf pred' m = labelOf pred m) :
    edges'.flatMap (a.share labels pred' n) = edges.flatMap (a.share labels pred n) := by
  induction h
  case nil => rw [List.flatMap_nil, List.flatMap_nil]
  case cons first _ hi =>
    rw [List.flatMap_cons, List.flatMap_cons, share_reseated first (agree _ (by simp)),
      hi fun edge he => agree edge (by simp [he])]

theorem Countable.reseated (h : edge.Reseated edge')
    (agree : ∀ m ∈ edge.members, m ≠ n → labelOf pred' m = labelOf pred m)
    (countable : Countable pred (edge.members.filter (· ≠ n)) (labels + 1)) :
    Countable pred' (edge'.members.filter (· ≠ n)) (labels + 1) := by
  intro m hm
  have ⟨mem, other⟩ := List.mem_filter.mp hm
  have mem := h.members.mem_iff.mp mem
  have ⟨x, found, range⟩ := countable m (List.mem_filter.mpr ⟨mem, other⟩)
  have same := agree m mem (by simpa using other)
  simp only [labelOf, found, Except.toOption] at same
  refine ⟨x, ?_, range⟩
  cases found' : Hypergraph.lookup pred' m <;> rw [found'] at same <;> cases same
  rfl

-- Where all nodes have labels, the members of an edge do.
theorem countable_of_labeled {g : Hypergraph} {bound : Nat} (sound : g.Sound bound)
    (labeled : ∀ m < g.nodes.size, ∃ x, pred[m]? = some x ∧ 1 ≤ x ∧ x ≤ (labels : Int) + 1)
    (hedge : edge ∈ g.edges) : Countable pred (edge.members.filter (· ≠ n)) (labels + 1) := by
  intro m hm
  have ⟨nonneg, lt⟩ := sound.members edge hedge m (List.mem_filter.mp hm).left
  obtain ⟨k, rfl⟩ := Int.eq_ofNat_of_zero_le nonneg
  have ⟨x, hx, range⟩ := labeled k (by omega)
  have ⟨lt, eq⟩ := Array.getElem?_eq_some_iff.mp hx
  exact ⟨x, eq ▸ Hypergraph.lookup_natCast lt, by omega⟩

end Augmenter

namespace Workbench

-- What the augmentation of a node comes to, given the edges at it.
structure Endowed (w : Workbench) (labels : Nat) (pred : Array Int) (n : Int) (edges : List Record)
    (token : Augmentation) (r r' : Record) : Prop where
  moved    : ∀ edge ∈ edges, ∀ f ∈ edge.visits, ∀ k,
    w.augmenter.space.relocate f.bucket k = .ok (w.augmenter.space.moved f.bucket k)
  alone    : w.augmenter.useStructure = true → ∀ edge ∈ edges, (∀ m ∈ edge.members, m = n) →
    w.augmenter.share labels pred n edge = []
  features : r'.featuresOf neighborNamespace =
    r.featuresOf neighborNamespace ++ edges.flatMap (w.augmenter.share labels pred n)
  added    : token.added = (edges.flatMap (w.augmenter.share labels pred n)).length

theorem featuresOf_augmented (w : Workbench) (r : Record) (fs : List Feature) :
    (w.augmented r fs).featuresOf neighborNamespace = r.featuresOf neighborNamespace ++ fs := by
  have ⟨_, received⟩ := r.remains_receive fs
  have remains := received.foldl_cross w.augmenter.space.neighborPairs
  rw [Record.featuresOf, augmented, remains.features, Keyed.get?_put_self]
  rfl

section Augment

variable {w : Workbench} {labels : Nat} {n : Int} {pred : Array Int} {es : List Int}
  {edges : List Record} {r : Record}

theorem augment_ok (idle : w.augmenter.active = none) (size : w.augmenter.scratch.cells.size = labels + 1)
    (hi : w.graph.incident n = .ok es) (he : es.mapM w.graph.edge = .ok edges)
    (hr : w.graph.node n = .ok r)
    (countable : ∀ edge ∈ edges,
      Augmenter.Countable pred (edge.members.filter (· ≠ n)) (labels + 1))
    (aligned : ∀ edge ∈ edges, ∀ f ∈ edge.visits, w.augmenter.space.Aligned f.bucket) :
    ∃ u, augment n pred w =
        .ok (w.tokenFor n r (edges.flatMap (w.augmenter.share labels pred n))) u ∧
      u.graph.node n = .ok (w.augmented r (edges.flatMap (w.augmenter.share labels pred n))) := by
  have lent := Augmenter.lent_eq hi he countable aligned size
  have augmented := augment_apply pred idle hr
  rw [lent] at augmented
  exact ⟨_, augmented, Hypergraph.node_setNode hr _⟩

theorem augment_reseated {g' : Hypergraph} {pred' : Array Int} (same : w.graph.Reseated g')
    (idle : w.augmenter.active = none) (size : w.augmenter.scratch.cells.size = labels + 1)
    (hi : w.graph.incident n = .ok es) (he : es.mapM w.graph.edge = .ok edges)
    (hr : w.graph.node n = .ok r)
    (countable : ∀ edge ∈ edges,
      Augmenter.Countable pred (edge.members.filter (· ≠ n)) (labels + 1))
    (aligned : ∀ edge ∈ edges, ∀ f ∈ edge.visits, w.augmenter.space.Aligned f.bucket)
    (agree : ∀ edge ∈ edges, ∀ m ∈ edge.members, m ≠ n → labelOf pred' m = labelOf pred m) :
    ∃ u, augment n pred' { w with graph := g' } =
        .ok (w.tokenFor n r (edges.flatMap (w.augmenter.share labels pred n))) u ∧
      u.graph.node n = .ok (w.augmented r (edges.flatMap (w.augmenter.share labels pred n))) := by
  obtain ⟨edges', he', sames⟩ := same.mapM_edge he
  have incident : g'.incident n = .ok es := by rwa [Hypergraph.incident, same.adjacency]
  have node : g'.node n = .ok r := by rwa [Hypergraph.node, same.nodes]
  have shares : edges'.flatMap (w.augmenter.share labels pred' n) =
      edges.flatMap (w.augmenter.share labels pred n) := Augmenter.flatMap_share_reseated sames agree
  have countable' : ∀ edge ∈ edges',
      Augmenter.Countable pred' (edge.members.filter (· ≠ n)) (labels + 1) := by
    intro edge' hedge'
    obtain ⟨edge, hedge, reseated⟩ := exists_rel_of_mem sames hedge'
    exact (countable edge hedge).reseated reseated (agree edge hedge)
  have aligned' : ∀ edge ∈ edges', ∀ f ∈ edge.visits, w.augmenter.space.Aligned f.bucket := by
    intro edge' hedge' f hf
    obtain ⟨edge, hedge, reseated⟩ := exists_rel_of_mem sames hedge'
    exact aligned edge hedge f (reseated.visits ▸ hf)
  rw [← shares]
  exact augment_ok (w := { w with graph := g' }) idle size incident he' node countable' aligned'

-- The edges at a node lend it a copy of each of their features for each label that is held at them, and
-- nothing else plays a part: not the order in which an edge names its members, not the label of the
-- node itself, and not the labels of nodes that are not at one of its edges.
theorem augment_by_rule {bound : Option Int} {records : List Record} {n : Nat}
    (built : Episode.toGraph bound records = .ok w.graph) (hn : n < w.graph.nodes.size)
    (labeled : ∀ m < w.graph.nodes.size, ∃ x, pred[m]? = some x ∧ 1 ≤ x ∧ x ≤ (labels : Int) + 1)
    (movable : Augmenter.Movable w.augmenter.space w.graph.edges)
    (size : w.augmenter.scratch.cells.size = labels + 1) (idle : w.augmenter.active = none) :
    ∃ es edges r r' token u,
      w.graph.incident n = .ok es ∧ es.mapM w.graph.edge = .ok edges ∧ w.graph.node n = .ok r ∧
      augment n pred w = .ok token u ∧ u.graph.node n = .ok r' ∧
      w.Endowed labels pred n edges token r r' ∧
      ∀ records' pred', List.Forall₂ Record.Reseated records records' →
        (∀ edge ∈ edges, ∀ m ∈ edge.members, m ≠ n → labelOf pred' m = labelOf pred m) →
        ∃ g' u', Episode.toGraph bound records' = .ok g' ∧
          augment n pred' { w with graph := g' } = .ok token u' ∧ u'.graph.node n = .ok r' := by
  have ⟨_, sound⟩ := Episode.exists_sound_toGraph built
  have ⟨es, hi⟩ := sound.incident_ok hn
  have ⟨edges, he, mem⟩ := sound.edges_ok hi
  have hr : w.graph.node n = .ok w.graph.nodes[n] := Hypergraph.lookup_natCast hn
  have countable : ∀ edge ∈ edges,
      Augmenter.Countable pred (edge.members.filter (· ≠ (n : Int))) (labels + 1) :=
    fun edge hedge => Augmenter.countable_of_labeled sound labeled (mem edge hedge)
  have aligned : ∀ edge ∈ edges, ∀ f ∈ edge.visits, w.augmenter.space.Aligned f.bucket :=
    fun edge hedge => movable edge (mem edge hedge)
  have ⟨u, augmented, node⟩ := augment_ok idle size hi he hr countable aligned
  refine ⟨es, edges, _, _, _, u, hi, he, hr, augmented, node, ?_, fun records' pred' reseated agree => ?_⟩
  case refine_1 => exact {
    moved    := fun edge hedge f hf => FeatureSpace.relocate_eq_moved (aligned edge hedge f hf)
    alone    := fun structured edge _ => Augmenter.share_of_alone structured
    features := featuresOf_augmented ..
    added    := rfl }
  case refine_2 =>
    have ⟨g', built', same⟩ := Episode.toGraph_reseated reseated built
    have ⟨u', augmented', node'⟩ := augment_reseated same idle size hi he hr countable aligned agree
    exact ⟨g', u', built', augmented', node'⟩

-- Two nodes that are joined by an edge with one feature, the second of which holds the only label.
theorem augment_by_rule_pair :
    let w := pair .standard 1
    ∃ es edges r r' token u,
      w.graph.incident 0 = .ok es ∧ es.mapM w.graph.edge = .ok edges ∧ w.graph.node 0 = .ok r ∧
      augment 0 #[2, 1] w = .ok token u ∧ u.graph.node 0 = .ok r' ∧
      w.Endowed 1 #[2, 1] 0 edges token r r' ∧ token.added = 1 := by
  intro w
  have built : Episode.toGraph none [{}, {}, pairEdge .standard 1] = .ok w.graph := rfl
  have movable := Augmenter.movable_of_built (.inl (Nat.one_dvd _)) (built_pair .standard 1)
  have labeled : ∀ m < 2, ∃ x, #[2, 1][m]? = some x ∧ 1 ≤ x ∧ x ≤ ((1 : Nat) : Int) + 1
    | 0, _ => ⟨2, rfl, by decide⟩
    | 1, _ => ⟨1, rfl, by decide⟩
  have ⟨es, edges, r, r', token, u, hi, he, hr, augmented, hr', endowed, _⟩ :=
    augment_by_rule (n := 0) built (by decide) labeled movable rfl rfl
  refine ⟨es, edges, r, r', token, u, hi, he, hr, augmented, hr', endowed, ?_⟩
  cases hi.symm.trans (rfl : w.graph.incident 0 = .ok [0])
  cases he.symm.trans (rfl : [0].mapM w.graph.edge = .ok [pairEdge .standard 1])
  rw [endowed.added]
  rfl

end Augment
end Workbench
end CollectiveLabeling
