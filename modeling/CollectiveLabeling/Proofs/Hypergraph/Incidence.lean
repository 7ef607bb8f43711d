import CollectiveLabeling.Proofs.Hypergraph.Within
import Mathlib.Algebra.GroupWithZero.Nat
import Mathlib.Data.List.Count
import Mathlib.Data.List.Dedup

namespace CollectiveLabeling

namespace Episode

-- Enters an edge at the end of a list, where it stays listed once.
def enter (e : Nat) (es : List Int) : List Int :=
  if es.getLast? = some (e : Int) then es else es ++ [(e : Int)]

theorem enter_enter (e : Nat) (es : List Int) : enter e (enter e es) = enter e es := by
  by_cases last : es.getLast? = some (e : Int)
  case pos => simp [enter, last]
  case neg => simp [enter, last]

theorem enter_of_lt {e : Nat} {es : List Int} (h : ∀ x ∈ es, x < e) : enter e es = es ++ [(e : Int)] := by
  refine if_neg fun last => ?_
  exact Int.lt_irrefl _ (h _ (List.mem_of_getLast? last))

variable {adjacency : Array (List Int)} {e i : Nat} {ms : List Int}

-- Only an edge's members list it, each of them once.
theorem getElem?_foldl_link (nonneg : ∀ m ∈ ms, 0 ≤ m) : (ms.foldl (link e) adjacency)[i]? =
    adjacency[i]?.map fun es => if (i : Int) ∈ ms then enter e es else es := by
  induction ms generalizing adjacency
  case nil => simp
  case cons m ms hi =>
    obtain ⟨k, rfl⟩ := Int.eq_ofNat_of_zero_le (nonneg m (by simp))
    have one : (link e adjacency k)[i]? = if k = i then adjacency[i]?.map (enter e) else adjacency[i]? :=
      Array.getElem?_modify
    rw [List.foldl_cons, hi fun m hm => nonneg m (by simp [hm]), one]
    by_cases same : k = i
    case pos =>
      subst same
      cases adjacency[k]? <;> simp [enter_enter]
    case neg =>
      have other : ¬(i : Int) = k := by omega
      simp [same, other]

-- The numbers of the edges that name a node.
def naming (n : Int) (edges : List (Record × Nat)) : List Int :=
  (edges.filter fun x => n ∈ x.1.members).map fun x => (x.2 : Int)

theorem naming_cons (n : Int) (r : Record) (e : Nat) (edges : List (Record × Nat)) :
    naming n ((r, e) :: edges) = if n ∈ r.members then (e : Int) :: naming n edges else naming n edges := by
  by_cases named : n ∈ r.members <;> simp [naming, named]

theorem getElem?_foldl_edges {nodes first : Nat} {edges : List Record}
    (linked : Linked nodes first adjacency) (nonneg : ∀ r ∈ edges, ∀ m ∈ r.members, 0 ≤ m) :
    ((edges.zipIdx first).foldl (fun a x => x.1.members.foldl (link x.2) a) adjacency)[i]? =
      adjacency[i]?.map (· ++ naming i (edges.zipIdx first)) := by
  induction edges generalizing first adjacency
  case nil => simp [naming]
  case cons r edges hi =>
    have wider : Linked nodes (first + 1) adjacency := linked.weaken (Nat.le_succ first)
    have later := hi (wider.foldl_link (Nat.lt_succ_self first) r.members)
      fun r' hr => nonneg r' (by simp [hr])
    rw [List.zipIdx_cons, List.foldl_cons, later, getElem?_foldl_link (nonneg r (by simp)), naming_cons]
    cases hes : adjacency[i]?
    case none => rfl
    case some es =>
      have new := enter_of_lt fun x hx => (linked.lt es (Array.mem_of_getElem? hes) x hx).right
      by_cases named : (i : Int) ∈ r.members <;> simp [named, new]

theorem adjacency_eq {s : Sorted} (nonneg : ∀ r ∈ s.edges, ∀ m ∈ r.members, 0 ≤ m)
    (hi : i < s.nodes.size) : (Episode.adjacency s)[i]? = some (naming i s.edges.toList.zipIdx) := by
  have nonneg : ∀ r ∈ s.edges.toList, ∀ m ∈ r.members, 0 ≤ m := by simpa using nonneg
  refine (getElem?_foldl_edges (Linked.replicate s.nodes.size) nonneg).trans ?_
  simp [hi]

end Episode

namespace Hypergraph

-- The edges that name a node, in ascending order.
def edgesAt (g : Hypergraph) (n : Int) : List Int :=
  Episode.naming n g.edges.toList.zipIdx

variable {g : Hypergraph} {bound : Option Int} {records : List Record} {n e : Int}

theorem members_natCast {k : Nat} {ms : List Int} :
    g.members k = .ok ms ↔ ∃ r, g.edges[k]? = some r ∧ r.members = ms := by
  simp only [members, edge, lookup_natCast_eq]
  cases g.edges[k]? <;> simp

theorem mem_edgesAt :
    e ∈ g.edgesAt n ↔ ∃ (k : Nat) (ms : List Int), e = k ∧ g.members k = .ok ms ∧ n ∈ ms := by
  simp only [edgesAt, Episode.naming, List.mem_map, List.mem_filter, decide_eq_true_eq]
  constructor
  case mp =>
    rintro ⟨⟨r, k⟩, ⟨mem, named⟩, rfl⟩
    have found := List.mem_zipIdx_iff_getElem?.mp mem
    exact ⟨k, r.members, rfl, members_natCast.mpr ⟨r, by simpa using found, rfl⟩, named⟩
  case mpr =>
    rintro ⟨k, ms, rfl, hms, named⟩
    obtain ⟨r, found, rfl⟩ := members_natCast.mp hms
    exact ⟨(r, k), ⟨List.mem_zipIdx_iff_getElem?.mpr (by simpa using found), named⟩, rfl⟩

theorem edgesAt_ascending (g : Hypergraph) (n : Int) : (g.edgesAt n).Pairwise (· < ·) := by
  have numbers : (g.edges.toList.zipIdx.map Prod.snd).Pairwise (· < ·) := by
    rw [List.zipIdx_map_snd]
    exact List.pairwise_lt_range'
  rw [edgesAt, Episode.naming, List.pairwise_map]
  exact (List.pairwise_map.mp numbers).filter _ |>.imp Int.ofNat_lt.mpr

theorem incident_toGraph (built : Episode.toGraph bound records = .ok g) {n : Nat}
    (hn : n < g.nodes.size) : g.incident n = .ok (g.edgesAt n) := by
  have ⟨s, _, checked, hg⟩ := Episode.toGraph_eq_ok.mp built
  subst hg
  have nonneg : ∀ r ∈ s.edges, ∀ m ∈ r.members, 0 ≤ m :=
    fun r hr m hm => (Episode.members_of_checkIds checked hr hm).left
  have found := Episode.adjacency_eq nonneg hn
  have ⟨lt, eq⟩ := Array.getElem?_eq_some_iff.mp found
  exact (lookup_natCast lt).trans (congrArg Except.ok eq)

-- An edge is counted at each node it names, and each node once at it.
theorem countP_range_mem {nodes : Nat} {ms : List Int} (range : ∀ m ∈ ms, 0 ≤ m ∧ m < nodes) :
    (List.range nodes).countP (fun i : Nat => (i : Int) ∈ ms) = ms.dedup.length := by
  have inj : Function.Injective ((↑) : Nat → Int) := fun _ _ => Int.ofNat.inj
  have same : ((List.range nodes).filter fun i : Nat => (i : Int) ∈ ms).map ((↑) : Nat → Int) |>.Perm ms.dedup := by
    refine (List.perm_ext_iff_of_nodup ((List.nodup_range.filter _).map inj) ms.nodup_dedup).mpr fun m => ?_
    simp only [List.mem_map, List.mem_filter, List.mem_range, decide_eq_true_eq, List.mem_dedup]
    constructor
    case mp =>
      rintro ⟨i, ⟨_, mem⟩, rfl⟩
      exact mem
    case mpr =>
      intro mem
      have ⟨nonneg, lt⟩ := range m mem
      exact ⟨m.toNat, ⟨by omega, by rwa [Int.toNat_of_nonneg nonneg]⟩, Int.toNat_of_nonneg nonneg⟩
  rw [List.countP_eq_length_filter, ← same.length_eq, List.length_map]

theorem length_naming (n : Int) (edges : List Record) (first : Nat) :
    (Episode.naming n (edges.zipIdx first)).length = edges.countP (n ∈ ·.members) := by
  induction edges generalizing first
  case nil => rfl
  case cons r edges hi =>
    rw [List.zipIdx_cons, Episode.naming_cons, List.countP_cons, ← hi (first + 1)]
    by_cases named : n ∈ r.members <;> simp [named]

theorem sum_countP_cons {α β : Type} (p : α → β → Bool) (x : α) (xs : List α) (ys : List β) :
    (ys.map fun y => (x :: xs).countP (p · y)).sum =
      ys.countP (p x) + (ys.map fun y => xs.countP (p · y)).sum := by
  induction ys
  case nil => rfl
  case cons y ys hi =>
    rw [List.map_cons, List.sum_cons, hi, List.map_cons, List.sum_cons, List.countP_cons, List.countP_cons]
    omega

-- Pairs in a relation are as many by their first parts as by their second.
theorem sum_countP_comm {α β : Type} (p : α → β → Bool) (xs : List α) (ys : List β) :
    (xs.map fun x => ys.countP (p x)).sum = (ys.map fun y => xs.countP (p · y)).sum := by
  induction xs
  case nil => simp
  case cons x xs hi => rw [sum_countP_cons, List.map_cons, List.sum_cons, hi]

-- The entries of all lists together.
theorem sum_length_adjacency (built : Episode.toGraph bound records = .ok g) :
    (g.adjacency.toList.map List.length).sum = (g.edges.toList.map (·.members.dedup.length)).sum := by
  have ⟨_, sound⟩ := Episode.exists_sound_toGraph built
  have lists : g.adjacency.toList = (List.range g.nodes.size).map fun i : Nat => g.edgesAt i := by
    refine List.ext_getElem (by simp [sound.size]) fun i hi _ => ?_
    have incident := incident_toGraph built (n := i) (by simpa [sound.size] using hi)
    have listed : g.incident i = .ok g.adjacency[i] := lookup_natCast (by simpa using hi)
    simpa using Except.ok.inj (listed.symm.trans incident)
  have seats (r : Record) (hr : r ∈ g.edges.toList) :
      (List.range g.nodes.size).countP (fun i : Nat => (i : Int) ∈ r.members) = r.members.dedup.length :=
    countP_range_mem (sound.members r (Array.mem_toList_iff.mp hr))
  calc (g.adjacency.toList.map List.length).sum
    _ = ((List.range g.nodes.size).map fun i : Nat => g.edges.toList.countP ((i : Int) ∈ ·.members)).sum := by
      simp only [lists, List.map_map, Function.comp_def, edgesAt, length_naming]
    _ = (g.edges.toList.map fun r => (List.range g.nodes.size).countP fun i : Nat => (i : Int) ∈ r.members).sum :=
      sum_countP_comm ..
    _ = (g.edges.toList.map (·.members.dedup.length)).sum := by
      rw [List.map_congr_left seats]

section Neighbors

variable {es : List Int} {m : Int}

theorem count_flatMap_pairs (f : Int → List Int) (nodup : es.Nodup) :
    (es.flatMap fun e => (f e).map (e, ·)).count (e, m) = if e ∈ es then (f e).count m else 0 := by
  induction es
  case nil => rfl
  case cons e' es hi =>
    have ⟨new, nodup⟩ := List.nodup_cons.mp nodup
    rw [List.flatMap_cons, List.count_append, hi nodup]
    by_cases same : e = e'
    case pos =>
      subst same
      have inj : Function.Injective fun m : Int => (e, m) := fun _ _ h => (Prod.mk.inj h).right
      simp [new, List.count_map_of_injective _ _ inj]
    case neg =>
      have other : (e, m) ∉ (f e').map (e', ·) := by
        simpa using fun _ (h : e' = e) => same h.symm
      simp [same, List.count_eq_zero.mpr other]

theorem across_eq {k : Nat} {ms : List Int} (h : g.members k = .ok ms) (n : Int) :
    g.across n k = ms.filter (· ≠ n) := by
  simp [across, others, h, Except.toOption]

theorem neighbors_toGraph (built : Episode.toGraph bound records = .ok g) {n : Nat}
    (hn : n < g.nodes.size) :
    g.neighbors n = .ok ((g.edgesAt n).flatMap fun e => (g.across n e).map (e, ·)) :=
  have ⟨_, sound⟩ := Episode.exists_sound_toGraph built
  sound.neighbors_eq (incident_toGraph built hn)

theorem count_neighbors {k : Nat} {ms : List Int} (hms : g.members k = .ok ms) :
    ((g.edgesAt n).flatMap fun e => (g.across n e).map (e, ·)).count ((k : Int), m) =
      if m ≠ n ∧ n ∈ ms then ms.count m else 0 := by
  have nodup : (g.edgesAt n).Nodup := (g.edgesAt_ascending n).imp Int.ne_of_lt
  have named : (k : Int) ∈ g.edgesAt n ↔ n ∈ ms := by
    refine mem_edgesAt.trans ⟨?_, fun named => ⟨k, ms, rfl, hms, named⟩⟩
    rintro ⟨k', ms', same, hms', named⟩
    cases Int.ofNat.inj same
    cases hms.symm.trans hms'
    exact named
  rw [count_flatMap_pairs _ nodup, across_eq hms]
  by_cases own : m = n
  case pos => simp [own, List.count_eq_zero]
  case neg => simp [own, named, List.count_filter]

end Neighbors
end Hypergraph
end CollectiveLabeling
