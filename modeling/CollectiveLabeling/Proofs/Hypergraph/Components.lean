import CollectiveLabeling.Proofs.Hypergraph.Clique
import Mathlib.Combinatorics.SimpleGraph.Connectivity.Connected

namespace CollectiveLabeling.Hypergraph

-- The graph that joins the members of each edge.
def expansion (g : Hypergraph) : SimpleGraph Nat where
  Adj u v  := g.Beside u v
  symm     := ⟨fun _ _ => Beside.symm⟩
  loopless := ⟨fun _ h => h.left rfl⟩

-- The connected parts of a graph that some nodes fall into.
structure Components (G : SimpleGraph Nat) (nodes : List Nat) (parts : List (List Nat)) : Prop where
  nodes : parts.flatten.Perm nodes
  part  : ∀ part ∈ parts, ∃ n ∈ part, ∀ m, m ∈ part ↔ G.Reachable n m

namespace Components

variable {G : SimpleGraph Nat} {nodes : List Nat} {parts parts' : List (List Nat)}

-- A part as the set of its nodes.
def sets (parts : List (List Nat)) : List (Set Nat) :=
  parts.map fun part => { n | n ∈ part }

theorem mem_sets (h : Components G nodes parts) {s : Set Nat} :
    s ∈ sets parts ↔ ∃ n ∈ nodes, s = { m | G.Reachable n m } := by
  refine List.mem_map.trans ⟨?mp, ?mpr⟩
  case mp =>
    rintro ⟨part, mem, rfl⟩
    have ⟨n, hn, reaches⟩ := h.part part mem
    exact ⟨n, h.nodes.mem_iff.mp (List.mem_flatten_of_mem mem hn), Set.ext reaches⟩
  case mpr =>
    rintro ⟨n, hn, rfl⟩
    have ⟨part, mem, inside⟩ := List.mem_flatten.mp (h.nodes.mem_iff.mpr hn)
    have ⟨k, _, reaches⟩ := h.part part mem
    have own := (reaches n).mp inside
    refine ⟨part, mem, Set.ext fun m => (reaches m).trans ?_⟩
    exact ⟨own.symm.trans, own.trans⟩

theorem nodup_sets (h : Components G nodes parts) (nodup : nodes.Nodup) : (sets parts).Nodup := by
  have ⟨_, disjoint⟩ := List.nodup_flatten.mp (h.nodes.nodup_iff.mpr nodup)
  refine List.pairwise_map.mpr (disjoint.imp_of_mem fun {a b} ha _ apart same => ?_)
  have ⟨n, hn, _⟩ := h.part a ha
  exact apart hn (same ▸ hn : n ∈ { m | m ∈ b })

-- There is one way to part nodes into connected parts, but for the order.
theorem length_eq (h : Components G nodes parts) (h' : Components G nodes parts')
    (nodup : nodes.Nodup) : parts.length = parts'.length := by
  have same : (sets parts).Perm (sets parts') :=
    (List.perm_ext_iff_of_nodup (h.nodup_sets nodup) (h'.nodup_sets nodup)).mpr fun _ =>
      h.mem_sets.trans h'.mem_sets.symm
  simpa [sets] using same.length_eq

end Components

variable {g : Hypergraph} {labels : Nat} {p : Int × Int} {done pairs : List (Int × Int)}
  {parts : List (List Int)}

theorem cliqueVertices_perm (sound : g.Sound labels) :
    g.cliqueVertices.Perm ((List.range g.nodes.size).map Int.ofNat) := by
  have inj : Function.Injective Int.ofNat := fun _ _ => Int.ofNat.inj
  refine (List.mergeSort_perm _ _).trans ?_
  refine (List.perm_ext_iff_of_nodup (nodup_distinct _) (List.nodup_range.map inj)).mpr fun n => ?_
  refine mem_distinct.trans (List.mem_append.trans (or_iff_left_of_imp fun hn => ?_))
  have ⟨p, hp, hn⟩ := List.mem_flatMap.mp hn
  have ⟨_, beside⟩ := mem_joinedPairs.mp hp
  have ⟨first, second⟩ := beside.range sound
  have range : 0 ≤ n ∧ n < g.nodes.size := by
    rcases List.mem_pair.mp hn with rfl | rfl <;> assumption
  exact List.mem_map.mpr ⟨n.toNat, List.mem_range.mpr (by omega), Int.toNat_of_nonneg range.left⟩

theorem mem_cliqueVertices (sound : g.Sound labels) {n : Int} :
    n ∈ g.cliqueVertices ↔ 0 ≤ n ∧ n < g.nodes.size := by
  rw [(cliqueVertices_perm sound).mem_iff, List.mem_map]
  constructor
  case mp =>
    rintro ⟨k, hk, rfl⟩
    have := List.mem_range.mp hk
    exact ⟨Int.natCast_nonneg k, Int.ofNat_lt.mpr this⟩
  case mpr =>
    intro ⟨nonneg, lt⟩
    exact ⟨n.toNat, List.mem_range.mpr (by omega), Int.toNat_of_nonneg nonneg⟩

-- The vertices of an accepted episode are its nodes.
theorem cliqueVertices_eq (sound : g.Sound labels) :
    g.cliqueVertices = (List.range g.nodes.size).map Int.ofNat := by
  refine List.Perm.eq_of_pairwise (fun _ _ _ _ => Int.le_antisymm) ?_ ?_ (cliqueVertices_perm sound)
  case refine_1 =>
    refine (List.pairwise_mergeSort ?_ ?_ _).imp of_decide_eq_true
    all_goals grind
  case refine_2 =>
    refine List.pairwise_map.mpr (List.pairwise_lt_range.imp fun lt => ?_)
    exact Int.ofNat_le.mpr (Nat.le_of_lt lt)

theorem adj_of_joinedPairs (sound : g.Sound labels) (hp : p ∈ g.joinedPairs) :
    g.expansion.Adj p.1.toNat p.2.toNat := by
  have ⟨_, beside⟩ := mem_joinedPairs.mp hp
  have ⟨first, second⟩ := beside.range sound
  simpa [expansion, Int.toNat_of_nonneg first.left, Int.toNat_of_nonneg second.left] using beside

-- Parts as they stand when some pairs have been joined.
structure Merged (g : Hypergraph) (done : List (Int × Int)) (parts : List (List Int)) : Prop where
  vertices : parts.flatten.Perm g.cliqueVertices
  joined   : ∀ part ∈ parts, ∃ u ∈ part, ∀ v ∈ part, g.expansion.Reachable u.toNat v.toNat
  closed   : ∀ p ∈ done, ∀ part ∈ parts, p.1 ∈ part ↔ p.2 ∈ part

def touches (p : Int × Int) (part : List Int) : Bool :=
  part.contains p.1 || part.contains p.2

theorem touches_iff {part : List Int} : touches p part = true ↔ p.1 ∈ part ∨ p.2 ∈ part := by
  simp [touches]

theorem merge_eq (parts : List (List Int)) (p : Int × Int) :
    merge parts p = (parts.filter (touches p)).flatten :: parts.filter (!touches p ·) := by
  simp only [merge, List.partition_eq_filter_filter]
  rfl

theorem mem_touched {v : Int} : v ∈ (parts.filter (touches p)).flatten ↔
    ∃ part ∈ parts, (p.1 ∈ part ∨ p.2 ∈ part) ∧ v ∈ part := by
  simp [List.mem_flatten, List.mem_filter, touches_iff, and_assoc]

namespace Merged

theorem start (g : Hypergraph) : g.Merged [] (g.cliqueVertices.map ([·])) where
  vertices := by simp [← List.flatMap_def]
  joined   := by simp
  closed   := by simp

theorem exists_part (h : g.Merged done parts) (sound : g.Sound labels) {n : Int}
    (range : 0 ≤ n ∧ n < g.nodes.size) : ∃ part ∈ parts, n ∈ part :=
  List.mem_flatten.mp (h.vertices.mem_iff.mpr ((mem_cliqueVertices sound).mpr range))

theorem ends_touched (h : g.Merged done parts) (sound : g.Sound labels) (hp : p ∈ g.joinedPairs) :
    p.1 ∈ (parts.filter (touches p)).flatten ∧ p.2 ∈ (parts.filter (touches p)).flatten := by
  have ⟨_, beside⟩ := mem_joinedPairs.mp hp
  have ⟨first, second⟩ := beside.range sound
  have ⟨part, hm, mem⟩ := h.exists_part sound first
  have ⟨part', hm', mem'⟩ := h.exists_part sound second
  exact ⟨mem_touched.mpr ⟨part, hm, .inl mem, mem⟩, mem_touched.mpr ⟨part', hm', .inr mem', mem'⟩⟩

theorem reachable_of_touched (h : g.Merged done parts) (sound : g.Sound labels)
    (hp : p ∈ g.joinedPairs) {v : Int} (hv : v ∈ (parts.filter (touches p)).flatten) :
    g.expansion.Reachable p.1.toNat v.toNat := by
  have ⟨part, hm, touched, hv⟩ := mem_touched.mp hv
  have ⟨u, _, reaches⟩ := h.joined part hm
  cases touched
  case inl first => exact (reaches _ first).symm.trans (reaches v hv)
  case inr second =>
    have adj := (adj_of_joinedPairs sound hp).reachable
    exact adj.trans ((reaches _ second).symm.trans (reaches v hv))

theorem merge (h : g.Merged done parts) (sound : g.Sound labels) (hp : p ∈ g.joinedPairs) :
    g.Merged (done ++ [p]) (merge parts p) := by
  have ⟨first, second⟩ := h.ends_touched sound hp
  rw [merge_eq]
  constructor
  case vertices =>
    refine .trans ?_ h.vertices
    simpa using (List.filter_append_perm (touches p) parts).flatten
  case joined =>
    refine List.forall_mem_cons.mpr ⟨⟨p.1, first, fun v => h.reachable_of_touched sound hp⟩, ?_⟩
    exact fun part hm => h.joined part (List.mem_filter.mp hm).left
  case closed =>
    intro q hq
    refine List.forall_mem_cons.mpr ⟨?_, fun part hm => ?_⟩
    all_goals rcases List.mem_append.mp hq with old | new
    case refine_1.inl =>
      rw [mem_touched, mem_touched]
      refine exists_congr fun part => and_congr_right fun hm => and_congr_right fun _ => ?_
      exact h.closed q old part hm
    case refine_1.inr =>
      rw [List.mem_singleton.mp new]
      exact iff_of_true first second
    case refine_2.inl => exact h.closed q old part (List.mem_filter.mp hm).left
    case refine_2.inr =>
      have apart : ¬(p.1 ∈ part ∨ p.2 ∈ part) := fun touched => by
        simpa [touches_iff.mpr touched] using (List.mem_filter.mp hm).right
      have ⟨out, out'⟩ := not_or.mp apart
      rw [List.mem_singleton.mp new]
      exact iff_of_false out out'

theorem foldl (h : g.Merged done parts) (sound : g.Sound labels) (hp : ∀ p ∈ pairs, p ∈ g.joinedPairs) :
    g.Merged (done ++ pairs) (pairs.foldl Hypergraph.merge parts) := by
  induction pairs generalizing done parts
  case nil => simpa using h
  case cons p pairs hi =>
    have ⟨first, rest⟩ := List.forall_mem_cons.mp hp
    simpa using hi (h.merge sound first) rest

-- A part that every joined pair stays in is all that can be reached from it.
theorem mem_of_reachable (h : g.Merged g.joinedPairs parts) {part : List Int} (hm : part ∈ parts)
    {m n : Nat} (reach : g.expansion.Reachable m n) (inside : (m : Int) ∈ part) : (n : Int) ∈ part := by
  obtain ⟨walk⟩ := reach
  induction walk
  case nil => exact inside
  case cons u v _ adj _ hi =>
    refine hi ?_
    cases Int.lt_or_gt_of_ne adj.left
    case inl lt => exact (h.closed (u, v) (mem_joinedPairs.mpr ⟨lt, adj⟩) part hm).mp inside
    case inr gt => exact (h.closed (v, u) (mem_joinedPairs.mpr ⟨gt, adj.symm⟩) part hm).mpr inside

theorem components (h : g.Merged g.joinedPairs parts) (sound : g.Sound labels) :
    Components g.expansion (List.range g.nodes.size) (parts.map (List.map Int.toNat)) := by
  constructor
  case nodes =>
    rw [← List.map_flatten]
    refine (h.vertices.trans (cliqueVertices_perm sound)).map Int.toNat |>.trans ?_
    simp [Function.comp_def]
  case part =>
    refine List.forall_mem_map.mpr fun part hm => ?_
    have ⟨u, hu, reaches⟩ := h.joined part hm
    have nonneg (v : Int) (hv : v ∈ part) : (v.toNat : Int) = v :=
      have vertex := h.vertices.mem_iff.mp (List.mem_flatten_of_mem hm hv)
      Int.toNat_of_nonneg ((mem_cliqueVertices sound).mp vertex).left
    refine ⟨u.toNat, List.mem_map_of_mem hu, fun m => ⟨fun hm => ?_, fun reach => ?_⟩⟩
    case refine_1 =>
      have ⟨v, hv, same⟩ := List.mem_map.mp hm
      exact same ▸ reaches v hv
    case refine_2 =>
      have inside := h.mem_of_reachable hm reach ((nonneg u hu).symm ▸ hu)
      exact List.mem_map.mpr ⟨m, inside, rfl⟩

end Merged

theorem components_parts (sound : g.Sound labels) :
    Components g.expansion (List.range g.nodes.size) (g.parts.map (List.map Int.toNat)) :=
  ((Merged.start g).foldl sound fun _ => id).components sound

-- The parts that are counted are the connected parts.
theorem length_of_components (sound : g.Sound labels) {parts : List (List Nat)}
    (h : Components g.expansion (List.range g.nodes.size) parts) : parts.length = g.componentCount := by
  have same := h.length_eq (components_parts sound) List.nodup_range
  rw [List.length_map] at same
  unfold componentCount
  split
  case isFalse => exact same
  case isTrue bare =>
    have none : g.nodes.size = 0 := by simpa using bare
    have empty : Components g.expansion (List.range g.nodes.size) [] := ⟨by simp [none], by simp⟩
    exact h.length_eq empty List.nodup_range

end CollectiveLabeling.Hypergraph
