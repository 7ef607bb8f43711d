import CollectiveLabeling.Proofs.Hypergraph.Components
import CollectiveLabeling.Proofs.Sweep
import Mathlib.Combinatorics.SimpleGraph.Metric

namespace CollectiveLabeling.Sweep

section Reach

variable {near : List Int} {untouched : List Nat} {m : Nat}

theorem mem_reach (nodup : untouched.Nodup) :
    m ∈ (reach near untouched).1 ↔ m ∈ untouched ∧ (m : Int) ∈ near := by
  induction near generalizing untouched
  case nil => simp [reach]
  case cons k near hi =>
    by_cases found : 0 ≤ k ∧ k.toNat ∈ untouched
    case pos =>
      simp only [reach, found, and_self, if_true, List.mem_cons, hi (nodup.erase _),
        nodup.mem_erase_iff]
      grind
    case neg =>
      simp only [reach, found, if_false, hi nodup, List.mem_cons]
      grind

theorem reach_left (nodup : untouched.Nodup) :
    m ∈ (reach near untouched).2 ↔ m ∈ untouched ∧ (m : Int) ∉ near := by
  have perm := reach_perm near untouched
  have apart := List.disjoint_of_nodup_append (perm.nodup_iff.mpr nodup)
  have split : m ∈ untouched ↔ m ∈ (reach near untouched).1 ∨ m ∈ (reach near untouched).2 :=
    perm.mem_iff.symm.trans List.mem_append
  have found : m ∈ (reach near untouched).1 ↔ m ∈ untouched ∧ (m : Int) ∈ near := mem_reach nodup
  grind

theorem reach_sublist (near : List Int) (untouched : List Nat) :
    (reach near untouched).2.Sublist untouched := by
  induction near generalizing untouched
  case nil => exact .refl _
  case cons k near hi =>
    by_cases found : 0 ≤ k ∧ k.toNat ∈ untouched
    case pos =>
      simp only [reach, found, and_self, if_true]
      exact (hi _).trans List.erase_sublist
    case neg =>
      simp only [reach, found, if_false]
      exact hi untouched

end Reach

-- A visit under way from one node. The nodes that are reached stand by their distance from it, and
-- those still pending are at most one step apart.
structure Front (G : SimpleGraph Nat) (seed : Nat) (done pending untouched : List Nat) : Prop where
  begun   : seed ∈ done ++ pending
  reached : ∀ n ∈ done ++ pending, G.Reachable seed n
  fresh   : ∀ n ∈ done ++ pending, n ∉ untouched
  cover   : ∀ n, G.Reachable seed n → n ∈ done ++ pending ∨ n ∈ untouched
  closed  : ∀ n ∈ done, ∀ m, G.Adj n m → m ∈ done ++ pending
  levels  : (done ++ pending).Pairwise fun m n => G.dist seed m ≤ G.dist seed n
  narrow  : ∀ m ∈ pending, ∀ n ∈ pending, G.dist seed n ≤ G.dist seed m + 1

namespace Front

variable {G : SimpleGraph Nat} {seed k m n : Nat} {done pending untouched : List Nat}

theorem start (cover : ∀ n, G.Reachable seed n → n = seed ∨ n ∈ untouched) (fresh : seed ∉ untouched) :
    Front G seed [] [seed] untouched where
  begun   := by simp
  reached := by simp
  fresh   := by simpa using fresh
  cover   := by simpa using cover
  closed  := by simp
  levels  := by simp
  narrow  := by simp

-- A walk from a node that has not been reached comes in over a pending one.
theorem exists_pending (h : Front G seed done pending untouched) (walk : G.Walk n seed)
    (out : n ∉ done ++ pending) : ∃ m ∈ pending, G.dist seed m < walk.length := by
  induction walk
  case nil => exact absurd h.begun out
  case cons n m seed adj walk hi =>
    by_cases inside : m ∈ done ++ pending
    case neg =>
      have ⟨k, hk, lt⟩ := hi h inside
      exact ⟨k, hk, Nat.lt_succ_of_lt lt⟩
    case pos =>
      cases List.mem_append.mp inside
      case inl hm => exact absurd (h.closed m hm n adj.symm) out
      case inr hm =>
        refine ⟨m, hm, Nat.lt_succ_of_le ?_⟩
        exact SimpleGraph.dist_comm.trans_le (SimpleGraph.dist_le walk)

theorem dist_pending (h : Front G seed done (n :: pending) untouched) (hk : k ∈ n :: pending) :
    G.dist seed n ≤ G.dist seed k ∧ G.dist seed k ≤ G.dist seed n + 1 := by
  have ⟨_, behind, _⟩ := List.pairwise_append.mp h.levels
  refine ⟨?_, h.narrow n (by simp) k hk⟩
  cases hk
  case head => exact Nat.le_refl _
  case tail hk => exact (List.pairwise_cons.mp behind).left k hk

theorem dist_reached (h : Front G seed done (n :: pending) untouched)
    (hk : k ∈ done ++ n :: pending) : G.dist seed k ≤ G.dist seed n + 1 := by
  have ⟨_, _, before⟩ := List.pairwise_append.mp h.levels
  cases List.mem_append.mp hk
  case inl hk => exact Nat.le_succ_of_le (before k hk n (by simp))
  case inr hk => exact (h.dist_pending hk).right

-- What is first reached from the first pending node is one step further away.
theorem dist_found (h : Front G seed done (n :: pending) untouched) (hm : m ∈ untouched)
    (adj : G.Adj n m) : G.dist seed m = G.dist seed n + 1 := by
  have reach := h.reached n (by simp)
  apply Nat.le_antisymm
  case h₁ =>
    have ⟨walk, length⟩ := reach.exists_walk_length_eq_dist
    have := SimpleGraph.dist_le (walk.concat adj)
    rwa [SimpleGraph.Walk.length_concat, length] at this
  case h₂ =>
    have ⟨walk, length⟩ := (reach.trans adj.reachable).symm.exists_walk_length_eq_dist
    have ⟨k, hk, lt⟩ := h.exists_pending walk fun inside => h.fresh m inside hm
    exact Nat.lt_of_le_of_lt (h.dist_pending hk).left (lt.trans_eq (length.trans SimpleGraph.dist_comm))

-- A pending node is done once the untouched nodes next to it are pending.
theorem step (h : Front G seed done (n :: pending) untouched) (nodup : untouched.Nodup)
    {near : List Int} (hn : ∀ m : Nat, (m : Int) ∈ near ↔ G.Adj n m) :
    Front G seed (done ++ [n]) (pending ++ (reach near untouched).1) (reach near untouched).2 := by
  -- What has been reached stands as before, with what is found at its end.
  have same : (done ++ [n]) ++ (pending ++ (reach near untouched).1) =
      (done ++ n :: pending) ++ (reach near untouched).1 := by simp
  have found (m : Nat) : m ∈ (reach near untouched).1 ↔ m ∈ untouched ∧ G.Adj n m :=
    (mem_reach nodup).trans (and_congr_right' (hn m))
  have left (m : Nat) : m ∈ (reach near untouched).2 ↔ m ∈ untouched ∧ ¬G.Adj n m :=
    (reach_left nodup).trans (and_congr_right' (not_congr (hn m)))
  have away (m : Nat) (hm : m ∈ (reach near untouched).1) : G.dist seed m = G.dist seed n + 1 :=
    h.dist_found ((found m).mp hm).left ((found m).mp hm).right
  constructor
  case begun => exact same ▸ List.mem_append_left _ h.begun
  case reached =>
    rw [same]
    intro m hm
    cases List.mem_append.mp hm
    case inl hm => exact h.reached m hm
    case inr hm => exact (h.reached n (by simp)).trans ((found m).mp hm).right.reachable
  case fresh =>
    rw [same]
    intro m hm later
    have ⟨old, apart⟩ := (left m).mp later
    cases List.mem_append.mp hm
    case inl hm => exact h.fresh m hm old
    case inr hm => exact apart ((found m).mp hm).right
  case cover =>
    rw [same]
    intro m reach
    cases h.cover m reach
    case inl hm => exact .inl (List.mem_append_left _ hm)
    case inr hm =>
      by_cases adj : G.Adj n m
      case pos => exact .inl (List.mem_append_right _ ((found m).mpr ⟨hm, adj⟩))
      case neg => exact .inr ((left m).mpr ⟨hm, adj⟩)
  case closed =>
    rw [same]
    intro k hk m adj
    cases List.mem_append.mp hk
    case inl hk => exact List.mem_append_left _ (h.closed k hk m adj)
    case inr hk =>
      cases List.mem_singleton.mp hk
      cases h.cover m ((h.reached n (by simp)).trans adj.reachable)
      case inl hm => exact List.mem_append_left _ hm
      case inr hm => exact List.mem_append_right _ ((found m).mpr ⟨hm, adj⟩)
  case levels =>
    rw [same]
    refine List.pairwise_append.mpr ⟨h.levels, ?_, fun k hk m hm => ?_⟩
    case refine_1 =>
      exact List.pairwise_of_forall_mem_list fun k hk m hm => (away k hk).trans_le (away m hm).ge
    case refine_2 => exact (h.dist_reached hk).trans (away m hm).ge
  case narrow =>
    have close (k : Nat) (hk : k ∈ pending ++ (reach near untouched).1) :
        G.dist seed n ≤ G.dist seed k ∧ G.dist seed k ≤ G.dist seed n + 1 := by
      cases List.mem_append.mp hk
      case inl hk => exact h.dist_pending (.tail _ hk)
      case inr hk =>
        have := away k hk
        omega
    exact fun k hk m hm => (close m hm).right.trans (Nat.succ_le_succ (close k hk).left)

-- When nothing is pending, all that can be reached is done.
theorem mem_iff (h : Front G seed done [] untouched) : n ∈ done ↔ G.Reachable seed n := by
  refine ⟨fun hn => h.reached n (by simpa using hn), fun ⟨walk⟩ => ?_⟩
  by_contra out
  have ⟨_, hm, _⟩ := h.exists_pending walk.reverse (by simpa using out)
  exact absurd hm List.not_mem_nil

end Front

-- A connected part from its lowest node on, by the distance from it.
structure Wave (G : SimpleGraph Nat) (seed : Nat) (block : List Nat) : Prop where
  head   : block.head? = some seed
  nodup  : block.Nodup
  mem    : ∀ n, n ∈ block ↔ G.Reachable seed n
  least  : ∀ n ∈ block, seed ≤ n
  levels : block.Pairwise fun m n => G.dist seed m ≤ G.dist seed n

variable {bound : Option Int} {records : List Record} {g : Hypergraph} {seed : Nat}
  {done pending untouched order : List Nat}

-- What is visited until nothing is pending, and what the visit goes on with.
theorem exists_front (built : Episode.toGraph bound records = .ok g)
    (front : Front g.expansion seed done pending untouched) (nodup : untouched.Nodup)
    (ho : explore g untouched pending = .ok order) :
    ∃ visited left rest, order = visited ++ rest ∧ explore g left [] = .ok rest ∧
      Front g.expansion seed (done ++ visited) [] left ∧ pending <+: visited ∧
      left.Sublist untouched ∧ (visited ++ left).Perm (pending ++ untouched) := by
  induction untouched, pending using explore.induct generalizing done order
  case case1 => exact ⟨[], [], order, rfl, ho, by simpa using front, List.prefix_refl _,
      .refl _, .refl _⟩
  case case2 k untouched _ =>
    exact ⟨[], k :: untouched, order, rfl, ho, by simpa using front, List.prefix_refl _,
      .refl _, .refl _⟩
  case case3 n pending untouched hi =>
    rw [explore] at ho
    obtain ⟨near, hn, ho⟩ := Attempt.bind_eq_ok.mp ho
    obtain ⟨later, hl, he⟩ := Attempt.bind_eq_ok.mp ho
    cases he
    have joined (m : Nat) : (m : Int) ∈ near.map (·.2) ↔ g.expansion.Adj n m :=
      Hypergraph.mem_neighbors built hn
    have next := front.step nodup joined
    have sub := reach_sublist (near.map (·.2)) untouched
    obtain ⟨visited, left, rest, same, hr, final, first, kept, perm⟩ :=
      hi near next (nodup.sublist sub) hl
    refine ⟨n :: visited, left, rest, congrArg (n :: ·) same, hr, by simpa using final, ?_, kept.trans sub, ?_⟩
    case refine_1 => exact List.cons_prefix_cons.mpr ⟨rfl, (List.prefix_append ..).trans first⟩
    case refine_2 =>
      refine (perm.trans ?_).cons n
      simpa using (reach_perm (near.map (·.2)) untouched).append_left pending

-- Nodes that are connected with no other than themselves.
def Saturated (G : SimpleGraph Nat) (nodes : List Nat) : Prop :=
  ∀ n ∈ nodes, ∀ m, G.Reachable n m → m ∈ nodes

-- The first of the untouched nodes starts a wave, and the visit goes on with what it leaves.
theorem exists_wave (built : Episode.toGraph bound records = .ok g)
    (ascending : (seed :: untouched).Pairwise (· < ·)) (saturated : Saturated g.expansion (seed :: untouched))
    (ho : explore g (seed :: untouched) [] = .ok order) :
    ∃ block left rest, order = block ++ rest ∧ explore g left [] = .ok rest ∧
      Wave g.expansion seed block ∧ left.Sublist untouched ∧ Saturated g.expansion left := by
  rw [explore] at ho
  obtain ⟨first, _⟩ := List.pairwise_cons.mp ascending
  have nodup : (seed :: untouched).Nodup := ascending.imp Nat.ne_of_lt
  obtain ⟨fresh, nodup'⟩ := List.nodup_cons.mp nodup
  have front := Front.start (fun n reach => List.mem_cons.mp (saturated seed (by simp) n reach)) fresh
  obtain ⟨block, left, rest, same, hr, final, ⟨tail, head⟩, kept, perm⟩ := exists_front built front nodup' ho
  have all := perm.nodup_iff.mpr nodup
  have apart := List.disjoint_of_nodup_append all
  have wave : Wave g.expansion seed block := {
    head   := by simp [← head]
    nodup  := (List.nodup_append.mp all).left
    mem    := fun n => final.mem_iff
    least  := fun n hn => by
      have inside : n ∈ seed :: untouched := perm.mem_iff.mp (List.mem_append_left _ hn)
      cases inside
      case head => exact Nat.le_refl _
      case tail hn => exact Nat.le_of_lt (first n hn)
    levels := by simpa using final.levels }
  refine ⟨block, left, rest, same, hr, wave, kept, fun n hn m reach => ?_⟩
  have inside : m ∈ block ++ left :=
    perm.mem_iff.mpr (saturated n (perm.mem_iff.mp (List.mem_append_right _ hn)) m reach)
  cases List.mem_append.mp inside
  case inr hm => exact hm
  case inl hm =>
    have back := (wave.mem n).mpr (((wave.mem m).mp hm).trans reach.symm)
    exact absurd hn (apart back)

theorem exists_waves (built : Episode.toGraph bound records = .ok g)
    (ascending : untouched.Pairwise (· < ·)) (saturated : Saturated g.expansion untouched)
    (ho : explore g untouched [] = .ok order) :
    ∃ seeds blocks, order = blocks.flatten ∧ List.Forall₂ (Wave g.expansion) seeds blocks ∧
      seeds.Sublist untouched := by
  induction length : untouched.length using Nat.strong_induction_on generalizing untouched order
  case h size hi =>
    cases untouched
    case nil =>
      cases (explore.eq_def g [] []).symm.trans ho
      exact ⟨[], [], rfl, .nil, .refl _⟩
    case cons seed untouched =>
      have ⟨block, left, rest, same, hr, wave, kept, sat⟩ := exists_wave built ascending saturated ho
      have lt : left.length < size := length ▸ Nat.lt_succ_of_le kept.length_le
      have above := (List.pairwise_cons.mp ascending).right
      have ⟨seeds, blocks, same', waves, sub⟩ := hi left.length lt (above.sublist kept) sat hr rfl
      exact ⟨seed :: seeds, block :: blocks, by simp [same, same'], .cons wave waves,
        (sub.trans kept).cons_cons seed⟩

theorem saturated_range {labels : Nat} (sound : g.Sound labels) :
    Saturated g.expansion (List.range g.nodes.size) := by
  intro n hn m ⟨walk⟩
  induction walk
  case nil => exact hn
  case cons adj _ hi =>
    have ⟨_, _, lt⟩ := adj.range sound
    exact hi (List.mem_range.mpr (Int.ofNat_lt.mp lt))

theorem Wave.exists_mem {G : SimpleGraph Nat} {seeds : List Nat} {blocks : List (List Nat)}
    (waves : List.Forall₂ (Wave G) seeds blocks) :
    ∀ block ∈ blocks, ∃ n ∈ block, ∀ m, m ∈ block ↔ G.Reachable n m := by
  induction waves
  case nil => simp
  case cons wave _ hi =>
    refine List.forall_mem_cons.mpr ⟨?_, hi⟩
    exact ⟨_, List.mem_of_head? wave.head, wave.mem⟩

-- The visit goes through the connected parts in the order of their lowest nodes, and through each of
-- them by the distance from its lowest node.
theorem breadth_first (built : Episode.toGraph bound records = .ok g) :
    ∃ order seeds blocks, Sweep.order g = .ok order ∧ order.Perm (List.range g.nodes.size) ∧
      order = blocks.flatten ∧ List.Forall₂ (Wave g.expansion) seeds blocks ∧
      seeds.Pairwise (· < ·) ∧ blocks.length = g.componentCount := by
  have ⟨_, sound⟩ := Episode.exists_sound_toGraph built
  have ⟨order, ho, perm⟩ := order_perm sound
  have ascending : (List.range g.nodes.size).Pairwise (· < ·) := List.pairwise_lt_range
  have ⟨seeds, blocks, same, waves, sub⟩ := exists_waves built ascending (saturated_range sound) ho
  have components : Hypergraph.Components g.expansion (List.range g.nodes.size) blocks := {
    nodes := same ▸ perm
    part  := Wave.exists_mem waves }
  exact ⟨order, seeds, blocks, ho, perm, same, waves, ascending.sublist sub,
    Hypergraph.length_of_components sound components⟩

-- A node that no edge names lies between those of a larger part.
theorem breadth_first_apart :
    let near : Record := { costs := [(1, 1.0), (4, 1.0)] }
    let far : Record := { costs := [(3, 1.0), (4, 1.0), (5, 1.0)] }
    let g : Hypergraph := {
      nodes     := #[{}, {}, {}, {}, {}]
      edges     := #[near, far]
      adjacency := #[[0], [], [1], [0, 1], [1]] }
    Episode.toGraph none [{}, {}, {}, {}, {}, near, far] = .ok g ∧
    ∃ order seeds blocks, Sweep.order g = .ok order ∧ order.Perm (List.range 5) ∧
      order = blocks.flatten ∧ List.Forall₂ (Wave g.expansion) seeds blocks ∧
      seeds.Pairwise (· < ·) ∧ blocks.length = g.componentCount := by
  intro near far g
  have built : Episode.toGraph none [{}, {}, {}, {}, {}, near, far] = .ok g := by rfl
  exact ⟨built, breadth_first built⟩

end CollectiveLabeling.Sweep
