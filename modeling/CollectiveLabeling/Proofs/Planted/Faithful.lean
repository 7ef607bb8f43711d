import CollectiveLabeling.Planted.Dice
import CollectiveLabeling.Proofs.Episode.Laid
import CollectiveLabeling.Proofs.Hypergraph.Components
import CollectiveLabeling.Proofs.Planted.Edges
import CollectiveLabeling.Proofs.Record

namespace CollectiveLabeling.Planted

open CollectiveLabeling.Hypergraph Step

variable {find : Cliques.Finder} {space : FeatureSpace} {request : Request} {d : Drawing} {perm : List Nat}

-- The members of all edges: the pairs first, then the cliques.
def memberLists (find : Cliques.Finder) (nodes : Nat) (edges : List (Nat × Nat)) (hyperedges : Bool) :
    List (List Nat) :=
  edges.map (fun (u, v) => [u, v]) ++ if hyperedges then largeCliques find nodes edges else []

section Members

variable {nodes : Nat} {edges : List (Nat × Nat)} {hyperedges : Bool} {ms : List Nat}
  (cliques : find.Sound)
include cliques

theorem large_memberLists : ∀ ms ∈ memberLists find nodes edges hyperedges, 1 < ms.length := by
  intro ms hm
  cases List.mem_append.mp hm
  case inl pair =>
    obtain ⟨_, _, rfl⟩ := List.mem_map.mp pair
    simp
  case inr clique =>
    split at clique
    case isTrue => exact Nat.lt_of_succ_lt (of_mem_largeCliques cliques clique).left
    case isFalse => cases clique

theorem inside_memberLists (inside : ∀ e ∈ edges, e.1 < nodes ∧ e.2 < nodes) :
    ∀ ms ∈ memberLists find nodes edges hyperedges, ∀ m ∈ ms, m < nodes := by
  intro ms hm m mem
  cases List.mem_append.mp hm
  case inl pair =>
    obtain ⟨e, he, rfl⟩ := List.mem_map.mp pair
    have ⟨first, second⟩ := inside e he
    rcases List.mem_pair.mp mem with rfl | rfl <;> assumption
  case inr clique =>
    split at clique
    case isTrue => exact (of_mem_largeCliques cliques clique).right.left m mem
    case isFalse => cases clique

-- All members of a clique are joined already, so the cliques join no others.
theorem together_memberLists {u v : Nat} (ne : u ≠ v) :
    (∃ ms ∈ memberLists find nodes edges hyperedges, u ∈ ms ∧ v ∈ ms) ↔ Joined edges u v := by
  constructor
  case mp =>
    rintro ⟨ms, hm, hu, hv⟩
    cases List.mem_append.mp hm
    case inl pair =>
      obtain ⟨⟨a, b⟩, he, rfl⟩ := List.mem_map.mp pair
      simp only [List.mem_pair] at hu hv
      unfold Joined
      grind
    case inr clique =>
      split at clique
      case isTrue => exact (of_mem_largeCliques cliques clique).right.right u hu v hv ne
      case isFalse => cases clique
  case mpr =>
    rintro (he | he)
    all_goals
      refine ⟨_, List.mem_append_left _ (List.mem_map_of_mem he), ?_⟩
      simp

end Members

section Sources

variable (space)

theorem ofSource_nodeSource (labels label observed : Int) : ∃ r,
    Record.ofSource space (nodeSource labels label observed) = .ok r ∧ r.costs = [(label, 1.0)] :=
  ⟨_, Record.ofSource_single rfl rfl rfl rfl, rfl⟩

theorem ofSource_edgeSource (feature : Int) (members : List Nat) : ∃ r,
    Record.ofSource space (edgeSource feature members) = .ok r ∧
      r.costs = members.map fun (m : Nat) => ((m : Int) + 1, 1.0) := by
  have costs : (edgeSource feature members).costs.mapM Record.readCost =
      .ok (members.map fun (m : Nat) => ((m : Int) + 1, 1.0)) := by
    rw [edgeSource, List.mapM_map]
    exact Attempt.mapM_eq_ok fun _ _ => rfl
  exact ⟨_, Record.ofSource_single costs rfl rfl rfl, rfl⟩

theorem edgeSources_eq (find : Cliques.Finder) (nodes : Nat) (edges : List (Nat × Nat)) (hyperedges : Bool) :
    ∃ features : List (Int × List Nat), features.map Prod.snd = memberLists find nodes edges hyperedges ∧
      edgeSources find nodes edges hyperedges = features.map fun (feature, ms) => edgeSource feature ms := by
  refine ⟨edges.map (fun (u, v) => ((0 : Int), [u, v])) ++
    if hyperedges then (largeCliques find nodes edges).map ((1 : Int), ·) else [], ?_, ?_⟩
  all_goals cases hyperedges <;> simp [memberLists, edgeSources, Function.comp_def]

theorem exists_edges (find : Cliques.Finder) (nodes : Nat) (edges : List (Nat × Nat)) (hyperedges : Bool) : ∃ rs,
    (edgeSources find nodes edges hyperedges).mapM (Record.ofSource space) = .ok rs ∧
      rs.map Record.costs = (memberLists find nodes edges hyperedges).map fun ms =>
        ms.map fun (m : Nat) => ((m : Int) + 1, 1.0) := by
  have ⟨features, members, sources⟩ := edgeSources_eq find nodes edges hyperedges
  rw [sources, ← members, List.mapM_map, List.map_map]
  exact Attempt.exists_mapM_eq_ok_map fun x _ => ofSource_edgeSource space x.1 x.2

variable {σ : Type} [Chance σ]

-- Numbers can be drawn at any time, and labels are within their range.
structure Supplied (σ : Type) [Chance σ] (labels : Int) : Prop where
  real    : ∀ s : σ, ∃ x t, Chance.real s = .ok x t
  between : ∀ s : σ, ∃ k t, Chance.between 1 (labels + 1) s = .ok k t ∧ 1 ≤ k ∧ k ≤ labels

theorem exists_nodes (supplied : Supplied σ request.labels) (labels : List Nat) (s : σ) : ∃ rs t,
    labels.mapM (nodeRecord space request) s = .ok rs t ∧
      rs.map Record.costs = labels.map fun (label : Nat) => [((label : Int), 1.0)] := by
  refine Step.exists_mapM_eq_ok_map (fun label _ s => ?_) s
  have ⟨observed, t, ho⟩ : ∃ observed t, observe request label s = .ok observed t := by
    have ⟨x, u, hx⟩ := supplied.real s
    have ⟨k, t, hk, _⟩ := supplied.between u
    simp only [observe, bind_apply, hx]
    split
    case isTrue => exact ⟨k, t, hk⟩
    case isFalse => exact ⟨label, u, rfl⟩
  have ⟨r, hr, costs⟩ := ofSource_nodeSource space request.labels label observed
  exact ⟨r, t, by simp only [nodeRecord, bind_apply, ho, hr, lift_ok], costs⟩

-- A graph that is drawn for a request, and the order in which its nodes are renumbered.
structure Drawn (request : Request) (s : σ) (d : Drawing) (perm : List Nat) (t : σ) : Prop where
  steps  : ∃ s₁ s₂, Chance.seeded request.seed s = .ok ⟨⟩ s₁ ∧
    Chance.partitionGraph (groupSizes request.nodes.toNat request.labels.toNat) request.pIn request.pOut
      request.seed s₁ = .ok d s₂ ∧
    Chance.permutation d.nodes.length s₂ = .ok perm t
  parted : d.Parted (groupSizes request.nodes.toNat request.labels.toNat)
  perm   : perm.Perm (List.range d.nodes.length)

theorem exists_episode (find : Cliques.Finder) {s t : σ} (drawn : Drawn request s d perm t)
    (supplied : Supplied σ request.labels) (labels : 1 ≤ request.labels) (enough : request.labels ≤ request.nodes) :
    ∃ nodes edges u, episode find space request s = .ok (nodes ++ edges) u ∧
      Episode.Laid (renumberedLabels d.nodes.length perm d.groups).toList
        (memberLists find d.nodes.length (renumberedEdges perm d) request.hyperedges) nodes edges := by
  have ⟨s₁, s₂, seeded, graph, permutation⟩ := drawn.steps
  have ⟨nodes, u, hn, costs⟩ := exists_nodes space supplied
    (renumberedLabels d.nodes.length perm d.groups).toList t
  have ⟨edges, he, costs'⟩ := exists_edges space find d.nodes.length (renumberedEdges perm d)
    request.hyperedges
  refine ⟨nodes, edges, u, ?_, costs, costs'⟩
  have labels : ¬request.labels < 1 := Int.not_lt.mpr labels
  have enough : ¬request.nodes < request.labels := Int.not_lt.mpr enough
  simp only [episode, labels, enough, if_false, bind_apply, seeded, graph, permutation, hn, he, lift_ok]
  rfl

end Sources

-- The graph as it was drawn, with its nodes renumbered.
structure Renumbers (perm : List Nat) (d : Drawing) (g : Hypergraph) : Prop where
  vertices : ∀ v, v ∈ g.cliqueVertices ↔ ∃ u ∈ d.nodes, ∃ n, perm[u]? = some n ∧ v = (n : Int)
  edges    : ∀ p, p ∈ g.cliqueEdges ↔ ∃ e ∈ d.edges, ∃ m n,
    perm[e.1]? = some m ∧ perm[e.2]? = some n ∧ p = orderPair (m, n)

section Laid

variable {sizes : List Nat} {hyperedges : Bool} {nodes edges : List Record} {g : Hypergraph} {k u m n : Nat}
  {group : List Nat} (h : d.Parted sizes) (hp : perm.Perm (List.range sizes.sum))
  (laid : Episode.Laid (renumberedLabels sizes.sum perm d.groups).toList
    (memberLists find sizes.sum (renumberedEdges perm d) hyperedges) nodes edges)
include h hp

omit hp in
theorem of_joined (joined : Joined d.edges m n) : m < sizes.sum ∧ n < sizes.sum ∧ m ≠ n := by
  cases joined
  case inl straight => exact h.edges _ straight
  case inr turned =>
    have ⟨second, first, ne⟩ := h.edges _ turned
    exact ⟨first, second, ne.symm⟩

theorem of_joined_renumberedEdges (joined : Joined (renumberedEdges perm d) m n) :
    m < sizes.sum ∧ n < sizes.sum ∧ m ≠ n := by
  obtain ⟨a, b, drawn, rfl, rfl⟩ := joined_renumberedEdges.mp joined
  have ⟨first, second, ne⟩ := of_joined h drawn
  exact ⟨renumbered_lt hp first, renumbered_lt hp second, mt (renumbered_inj hp first second).mp ne⟩

include laid

omit h hp in
theorem length_of_laid : nodes.length = sizes.sum := by
  simp [laid.length_nodes, size_renumberedLabels]

theorem countP_label_of_laid : nodes.countP (·.label = (k : Int) + 1) = sizes.getD k 0 :=
  (laid.countP_label (k + 1)).trans (count_renumberedLabels h hp)

theorem label_of_laid (hg : d.groups[k]? = some group) (hu : u ∈ group) : ∃ n r,
    perm[u]? = some n ∧ nodes[n]? = some r ∧ r.label = (k : Int) + 1 := by
  have known := h.lt_of_mem_group hg hu
  have label := renumberedLabels_of_group h hp hg hu
  have read : (nodes.map Record.label)[renumbered perm u]? = some ((k : Int) + 1) := by
    rw [laid.labels_eq]
    simp [label]
  rw [List.getElem?_map] at read
  have ⟨r, found, same⟩ := Option.map_eq_some_iff.mp read
  exact ⟨_, r, getElem?_renumbered hp known, found, same⟩

variable (cliques : find.Sound)
include cliques

-- Cliques or not, what stands beside one another in the built graph are the ends of an edge.
theorem beside_of_laid (he : g.edges.toList = edges) :
    g.Beside m n ↔ Joined (renumberedEdges perm d) m n := by
  rw [laid.beside_iff he]
  constructor
  case mp =>
    rintro ⟨ne, ms, hm, ⟨a, ha, first⟩, b, hb, second⟩
    obtain rfl := Int.ofNat_inj.mp first
    obtain rfl := Int.ofNat_inj.mp second
    exact (together_memberLists cliques fun same => ne (congrArg _ same)).mp ⟨ms, hm, ha, hb⟩
  case mpr =>
    intro joined
    have ⟨_, _, ne⟩ := of_joined_renumberedEdges h hp joined
    have ⟨ms, hm, first, second⟩ : ∃ ms ∈ memberLists find sizes.sum (renumberedEdges perm d) hyperedges,
        m ∈ ms ∧ n ∈ ms := (together_memberLists cliques ne).mpr joined
    exact ⟨fun same => ne (Int.ofNat_inj.mp same), ms, hm, ⟨m, first, rfl⟩, n, second, rfl⟩

theorem beside_iff_drawn (he : g.edges.toList = edges) : g.Beside m n ↔
    ∃ a b, Joined d.edges a b ∧ perm[a]? = some m ∧ perm[b]? = some n := by
  rw [beside_of_laid h hp laid cliques he, joined_renumberedEdges]
  refine exists₂_congr fun a b => and_congr_right fun joined => ?_
  have ⟨first, second, _⟩ := of_joined h joined
  simp [getElem?_renumbered hp first, getElem?_renumbered hp second, eq_comm]

variable {labels : Nat} (sound : g.Sound labels)
include sound

omit cliques in
theorem mem_cliqueVertices_of_laid (hn : g.nodes.toList = nodes) {v : Int} : v ∈ g.cliqueVertices ↔
    ∃ u ∈ d.nodes, ∃ n, perm[u]? = some n ∧ v = (n : Int) := by
  have size : g.nodes.size = sizes.sum := by
    rw [← Array.length_toList, hn, length_of_laid laid]
  rw [cliqueVertices_eq sound, size, List.mem_map]
  constructor
  case mp =>
    rintro ⟨n, hn, rfl⟩
    have ⟨u, found⟩ := List.mem_iff_getElem?.mp (hp.mem_iff.mpr hn)
    have ⟨lt, _⟩ := List.getElem?_eq_some_iff.mp found
    have known : u ∈ List.range sizes.sum := List.mem_range.mpr (by simpa [hp.length_eq] using lt)
    exact ⟨u, h.nodes.mem_iff.mpr known, n, found, rfl⟩
  case mpr =>
    rintro ⟨u, _, n, found, rfl⟩
    exact ⟨n, hp.mem_iff.mp (List.mem_of_getElem? found), rfl⟩

theorem mem_cliqueEdges_of_laid (he : g.edges.toList = edges) {p : Int × Int} : p ∈ g.cliqueEdges ↔
    ∃ e ∈ d.edges, ∃ m n, perm[e.1]? = some m ∧ perm[e.2]? = some n ∧ p = orderPair (m, n) := by
  constructor
  case mp =>
    intro edge
    have ⟨lt, beside⟩ := mem_cliqueEdges.mp edge
    have ⟨first, second⟩ := beside.range sound
    have ⟨m, hm⟩ := Int.eq_ofNat_of_zero_le first.left
    have ⟨n, hn⟩ := Int.eq_ofNat_of_zero_le second.left
    obtain rfl : p = ((m : Int), (n : Int)) := Prod.ext hm hn
    have ⟨a, b, joined, hm, hn⟩ := (beside_iff_drawn h hp laid cliques he).mp beside
    cases joined
    case inl straight => exact ⟨_, straight, m, n, hm, hn, (orderPair_of_lt lt).symm⟩
    case inr turned => exact ⟨_, turned, n, m, hn, hm, (orderPair_of_gt lt).symm⟩
  case mpr =>
    rintro ⟨e, drawn, m, n, hm, hn, rfl⟩
    have beside := (beside_iff_drawn h hp laid cliques he).mpr ⟨e.1, e.2, .inl drawn, hm, hn⟩
    exact orderPair_mem_cliqueEdges.mpr beside

end Laid

-- Records of nodes and of edges that tell of nothing but the graph that was drawn.
structure Faithful (request : Request) (perm : List Nat) (d : Drawing) (nodes edges : List Record) : Prop where
  length : (nodes.length : Int) = request.nodes
  isNode : ∀ r ∈ nodes, r.isEdge = false
  isEdge : ∀ r ∈ edges, r.isEdge = true
  shares : ∀ k : Nat, k < request.labels → nodes.countP (·.label = (k : Int) + 1) =
    request.nodes / request.labels + if (k : Int) < request.nodes % request.labels then 1 else 0
  labels : ∀ (k : Nat) group, d.groups[k]? = some group → ∀ u ∈ group, ∃ n r,
    perm[u]? = some n ∧ nodes[n]? = some r ∧ r.label = (k : Int) + 1
  graph  : ∃ g, Episode.load (some request.labels) (nodes ++ edges) none = .ok g none ∧ Renumbers perm d g

section Faithful

variable {σ : Type} [Chance σ] {s t : σ}

-- Whatever is drawn and whichever cliques are found, the episode is accepted and gives back the graph.
theorem episode_faithful (cliques : find.Sound) (drawn : Drawn request s d perm t)
    (supplied : Supplied σ request.labels)
    (labels : 1 ≤ request.labels) (enough : request.labels ≤ request.nodes) :
    ∃ nodes edges u, episode find space request s = .ok (nodes ++ edges) u ∧
      Faithful request perm d nodes edges := by
  have ⟨nodes, edges, u, built, laid⟩ := exists_episode space find drawn supplied labels enough
  have ⟨N, hN⟩ := Int.eq_ofNat_of_zero_le (Int.le_trans (Int.le_of_lt labels) enough)
  have ⟨L, hL⟩ := Int.eq_ofNat_of_zero_le (Int.le_of_lt labels)
  have h := drawn.parted
  have hp := drawn.perm
  simp only [hN, hL, Int.toNat_natCast] at h
  have sum : (groupSizes N L).sum = N := sum_groupSizes (by omega)
  have length : d.nodes.length = (groupSizes N L).sum := by simpa using h.nodes.length_eq
  rw [length] at hp laid
  refine ⟨nodes, edges, u, built, ?_⟩
  constructor
  case length => rw [length_of_laid laid, sum, hN]
  case isNode => exact fun r => laid.isEdge_node
  case isEdge => exact fun r => laid.isEdge_edge (large_memberLists cliques)
  case shares =>
    intro k hk
    rw [hL] at hk
    have share := getElem?_groupSizes N (Int.ofNat_lt.mp hk)
    have first : ((k : Int) < (N : Int) % (L : Int)) ↔ k < N % L := by
      rw [← Int.natCast_emod, Int.ofNat_lt]
    simp only [countP_label_of_laid h hp laid, List.getD_eq_getElem?_getD, share, Option.getD_some, hN, hL,
      first]
    split <;> simp
  case labels => exact fun k group hg u hu => label_of_laid h hp laid hg hu
  case graph =>
    have inside : ∀ ms ∈ memberLists find (groupSizes N L).sum (renumberedEdges perm d) request.hyperedges,
        ∀ m ∈ ms, m < (groupSizes N L).sum :=
      inside_memberLists cliques fun _ he =>
        have ⟨first, second, _⟩ := of_joined_renumberedEdges h hp (.inl he)
        ⟨first, second⟩
    have range : ∀ label ∈ (renumberedLabels (groupSizes N L).sum perm d.groups).toList, label ≤ L :=
      fun label hl => by simpa [length_groupSizes] using (mem_renumberedLabels h hp hl).right
    have ⟨g, hg, hn, he⟩ :=
      laid.toGraph_ok (large_memberLists cliques) (by simpa [size_renumberedLabels] using inside) range
    have ⟨_, sound⟩ := Episode.exists_sound_toGraph hg
    have loaded : Episode.load (some request.labels) (nodes ++ edges) none = .ok g none := by
      simp [Episode.load, Episode.boundOf, hL, hg]
    refine ⟨g, loaded, fun _ => mem_cliqueVertices_of_laid h hp laid sound hn, fun _ => ?_⟩
    exact mem_cliqueEdges_of_laid h hp laid cliques sound he

-- Three nodes that are all joined, with a clique besides the pairs. Two of them share a label.
theorem episode_faithful_sample :
    let request : Request := { nodes := 3, labels := 2, hyperedges := true }
    let d : Drawing := ⟨[0, 1, 2], [(0, 1), (1, 2), (0, 2)], [[0, 1], [2]]⟩
    let dice : Dice := { permutation := some [2, 0, 1], edges := some d.edges }
    let seeded := { dice with seeds := #[1337] }
    let asked := { seeded with calls := #[⟨[2, 1], 0.3, 0.02, 1337⟩] }
    Cliques.Finder.Sound Cliques.maximal ∧ Drawn request dice d [2, 0, 1] asked ∧
    Supplied Dice request.labels ∧
    1 ≤ request.labels ∧ request.labels ≤ request.nodes ∧
    ∃ nodes edges u, episode Cliques.maximal .standard request dice = .ok (nodes ++ edges) u ∧
      Faithful request [2, 0, 1] d nodes edges := by
  intro request d dice seeded asked
  have drawn : Drawn request dice d [2, 0, 1] asked := by
    have sizes : groupSizes request.nodes.toNat request.labels.toNat = [2, 1] := by decide
    refine ⟨⟨seeded, asked, rfl, by rw [sizes]; rfl, rfl⟩, ?_, by decide⟩
    constructor <;> decide
  have supplied : Supplied Dice request.labels := by
    refine ⟨fun s => ⟨_, _, rfl⟩, fun s => ⟨_, _, rfl, ?_⟩⟩
    simp only [request]
    omega
  have labels : 1 ≤ request.labels := by decide
  have enough : request.labels ≤ request.nodes := by decide
  exact ⟨Cliques.sound_maximal, drawn, supplied, labels, enough,
    episode_faithful Cliques.sound_maximal drawn supplied labels enough⟩

end Faithful

end CollectiveLabeling.Planted
