import CollectiveLabeling.Proofs.Neighborhood.Tally

namespace CollectiveLabeling

open Step

namespace Record

-- What of a record the model goes through.
def plain (r : Record) : Record where
  features := r.features
  active   := r.active

-- A record of an edge whose members have moved on by so many places.
def shift (o : Nat) (r : Record) : Record :=
  { r with costs := r.costs.map fun (id, x) => (id + o, x) }

theorem visits_eq_of_plain {r r' : Record} (h : r'.plain = r.plain) : r'.visits = r.visits := by
  have visits (r : Record) : r.visits = r.plain.visits := rfl
  rw [visits, h, ← visits]

theorem plain_settled (r : Record) : r.settled.plain = r.plain := by
  simp only [settled]
  split <;> rfl

theorem plain_foldl_cross (pairs : List (String × String)) (r : Record) :
    (pairs.foldl cross r).plain = r.plain := by
  induction pairs generalizing r
  case nil => rfl
  case cons pair pairs hi => exact hi (r.cross pair)

theorem members_shift (o : Nat) (r : Record) : (r.shift o).members = r.members.map (· + (o : Int)) := by
  simp only [members, shift, List.map_map]
  refine List.map_congr_left fun (id, x) _ => ?_
  simp only [Function.comp_apply]
  omega

theorem shift_zero (r : Record) : r.shift 0 = r := by
  simp [shift]

end Record

namespace Hypergraph

-- A graph without what the model does not see of its nodes.
def plain (g : Hypergraph) : Hypergraph :=
  { g with nodes := g.nodes.map Record.plain }

section Plain

variable {g h : Hypergraph} {n : Int} {r : Record}

theorem plain_setNode (hr : g.node n = .ok r) {r' : Record} (hp : r'.plain = r.plain) :
    (g.setNode n r').plain = g.plain := by
  have ⟨p, hp', hr⟩ := lookup_eq_ok.mp hr
  simp only [setNode, hp', plain]
  congr 1
  refine Array.ext (by simp) fun i _ hi => ?_
  replace hi : i < g.nodes.size := by simpa using hi
  simp only [Array.getElem_map, Array.getElem_setIfInBounds hi]
  split
  case isFalse => rfl
  case isTrue he =>
    subst he
    have : g.nodes[p] = r := by simpa [hi] using hr
    rw [this, hp]

theorem plain_settle (g : Hypergraph) (n : Int) : (g.settle n).plain = g.plain := by
  simp only [settle]
  split
  case h_1 r hr => exact plain_setNode hr r.plain_settled
  case h_2 => rfl

theorem size_of_plain (hp : h.plain = g.plain) : h.nodes.size = g.nodes.size := by
  simpa [plain] using congrArg (·.nodes.size) hp

theorem edges_of_plain (hp : h.plain = g.plain) : h.edges = g.edges :=
  congrArg (·.edges) hp

theorem adjacency_of_plain (hp : h.plain = g.plain) : h.adjacency = g.adjacency :=
  congrArg (·.adjacency) hp

theorem getElem?_of_plain (hp : h.plain = g.plain) (n : Nat) :
    h.nodes[n]?.map Record.plain = g.nodes[n]?.map Record.plain := by
  have hn : h.plain.nodes[n]? = g.plain.nodes[n]? := by rw [hp]
  simpa [plain] using hn

end Plain

-- A graph that is a part of another: its nodes and edges are found there, so many places further on,
-- and its edges are the only ones at its nodes.
structure Within (o q : Nat) (g h : Hypergraph) : Prop where
  nodes     : ∀ n < g.nodes.size, h.nodes[n + o]?.map Record.plain = g.nodes[n]?.map Record.plain
  edges     : ∀ e < g.edges.size, h.edges[e + q]? = g.edges[e]?.map (Record.shift o)
  adjacency : ∀ n < g.nodes.size, h.adjacency[n + o]? = g.adjacency[n]?.map (List.map (· + (q : Int)))

namespace Within

variable {o q labels : Nat} {g h g' h' : Hypergraph}

theorem of_plain (hp : h.plain = g.plain) : Within 0 0 g h where
  nodes     := fun n _ => getElem?_of_plain hp n
  edges     := fun e _ => by
    have same : Record.shift 0 = id := funext Record.shift_zero
    rw [edges_of_plain hp, same]
    simp
  adjacency := fun n _ => by
    rw [adjacency_of_plain hp]
    simp

theorem congr (w : Within o q g h) (hg : g'.plain = g.plain) (hh : h'.plain = h.plain) :
    Within o q g' h' where
  nodes     := fun n hn => by
    rw [getElem?_of_plain hh, w.nodes n (size_of_plain hg ▸ hn), getElem?_of_plain hg]
  edges     := fun e he => by
    rw [edges_of_plain hh, w.edges e (edges_of_plain hg ▸ he), edges_of_plain hg]
  adjacency := fun n hn => by
    rw [adjacency_of_plain hh, w.adjacency n (size_of_plain hg ▸ hn), adjacency_of_plain hg]

end Within

theorem lookup_natCast_eq {α : Type} (xs : Array α) (n : Nat) :
    lookup xs (n : Int) = match xs[n]? with
      | some x => .ok x
      | none => .error .outOfRange := by
  by_cases h : n < xs.size
  case pos => simp [lookup_natCast h, h]
  case neg =>
    have none : Index.place? xs.size (n : Int) = none := Index.place?_eq_none_iff.mpr (.inr (by omega))
    simp [lookup, none, Nat.le_of_not_lt h]

theorem map_lookup_natCast {α β γ : Type} {xs : Array α} {ys : Array β} {f : α → γ} {g : β → γ}
    {m n : Nat} (h : xs[m]?.map f = ys[n]?.map g) :
    f <$> lookup xs (m : Int) = g <$> lookup ys (n : Int) := by
  rw [lookup_natCast_eq, lookup_natCast_eq]
  cases hx : xs[m]? <;> cases hy : ys[n]? <;> simp_all

namespace Within

variable {o q labels n : Nat} {g h : Hypergraph} (w : Within o q g h) (sound : g.Sound labels)
include w

theorem node (hn : n < g.nodes.size) :
    Record.plain <$> h.node (n + o : Nat) = Record.plain <$> g.node n :=
  map_lookup_natCast (w.nodes n hn)

theorem edge {e : Nat} (he : e < g.edges.size) :
    h.edge (e + q : Nat) = Record.shift o <$> g.edge e := by
  have found : h.edges[e + q]?.map id = g.edges[e]?.map (Record.shift o) := by
    simpa using w.edges e he
  exact (id_map _).symm.trans (map_lookup_natCast found)

theorem incident (hn : n < g.nodes.size) :
    h.incident (n + o : Nat) = List.map (· + (q : Int)) <$> g.incident n := by
  have found : h.adjacency[n + o]?.map id = g.adjacency[n]?.map (List.map (· + (q : Int))) := by
    simpa using w.adjacency n hn
  exact (id_map _).symm.trans (map_lookup_natCast found)

theorem others {e : Nat} (he : e < g.edges.size) :
    h.others (n + o : Nat) (e + q : Nat) = List.map (· + (o : Int)) <$> g.others n e := by
  simp only [Hypergraph.others, Hypergraph.members, w.edge he]
  cases g.edge e
  case error => rfl
  case ok r =>
    simp only [Attempt.map_ok, Record.members_shift, List.filter_map, Except.ok.injEq]
    congr 1
    refine List.filter_congr fun m _ => ?_
    simp only [Function.comp_apply, decide_eq_decide]
    omega

theorem across {e : Nat} (he : e < g.edges.size) :
    h.across (n + o : Nat) (e + q : Nat) = (g.across n e).map (· + (o : Int)) := by
  simp only [Hypergraph.across, w.others he]
  cases g.others n e <;> rfl

include sound

-- The neighbors move along with the nodes.
theorem neighbors (sound' : h.Sound labels) (hn : n < g.nodes.size) :
    h.neighbors (n + o : Nat) =
      List.map (Prod.map (· + (q : Int)) (· + (o : Int))) <$> g.neighbors n := by
  have ⟨es, hi⟩ := sound.incident_ok hn
  have hi' : h.incident (n + o : Nat) = .ok (es.map (· + (q : Int))) := by
    rw [w.incident hn, hi]
    rfl
  have near : ∀ e ∈ es, (h.across (n + o : Nat) (e + q)).map (e + (q : Int), ·) =
      ((g.across n e).map (e, ·)).map (Prod.map (· + (q : Int)) (· + (o : Int))) := by
    intro e he
    have ⟨nonneg, lt⟩ := sound.incident_range hi he
    obtain ⟨k, rfl⟩ := Int.eq_ofNat_of_zero_le nonneg
    have across := w.across (n := n) (e := k) (by omega)
    rw [Int.natCast_add k] at across
    rw [across, List.map_map, List.map_map]
    rfl
  rw [sound.neighbors_eq hi, sound'.neighbors_eq hi', List.flatMap_map]
  simp only [Attempt.map_ok, List.map_flatMap, Except.ok.injEq]
  exact congrArg List.flatten (List.map_congr_left near)

end Within
end Hypergraph
end CollectiveLabeling
