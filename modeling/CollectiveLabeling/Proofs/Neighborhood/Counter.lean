import CollectiveLabeling.Proofs.Hypergraph.Within
import CollectiveLabeling.Proofs.Neighborhood.Rule
import Mathlib.Data.List.Nodup

namespace CollectiveLabeling

open Step

theorem Keyed.get?_eq_none_iff {α : Type} {m : Keyed α} {key : String} :
    m.get? key = none ↔ key ∉ m.keys := by
  induction m
  case nil => simp [get?, keys]
  case cons entry rest hi =>
    simp only [keys] at hi
    by_cases same : entry.1 = key
    case pos => simp [get?, keys, same]
    case neg => simp [get?, keys, same, hi, Ne.symm same]

namespace Record

variable {r r' : Record} {name other : String} {fs : List Feature}

theorem featuresOf_extend_self (r : Record) (name : String) (fs : List Feature) :
    (r.extend name fs).featuresOf name = fs := by
  simp [featuresOf, extend, Keyed.get?_put_self]

theorem featuresOf_extend_ne (ne : other ≠ name) :
    (r.extend name fs).featuresOf other = r.featuresOf other := by
  simp [featuresOf, extend, Keyed.get?_put_ne _ _ ne]

theorem featuresOf_receive_self (r : Record) (fs : List Feature) :
    (r.receive fs).featuresOf neighborNamespace = r.featuresOf neighborNamespace ++ fs := by
  simp only [featuresOf, receive, Keyed.get?_put_self, Option.getD_some]

theorem featuresOf_receive_ne (ne : other ≠ neighborNamespace) :
    (r.receive fs).featuresOf other = r.featuresOf other := by
  simp only [featuresOf, receive, Keyed.get?_put_ne _ _ ne]

-- A record that files features under the namespaces that are active, each of which is once, and that
-- counts them all.
structure Counted (r : Record) : Prop where
  keys  : r.active = r.features.keys
  nodup : r.active.Nodup
  count : r.count = r.visits.length

namespace Counted

theorem plain (costs : List (Int × Float)) : Counted { costs } where
  keys  := rfl
  nodup := .nil
  count := rfl

theorem extend (h : r.Counted) (fresh : name ∉ r.active) (fs : List Feature) :
    (r.extend name fs).Counted := by
  have none : r.features.get? name = none := Keyed.get?_eq_none_iff.mpr (h.keys ▸ fresh)
  constructor
  case keys => simp [Record.extend, Keyed.put_of_get?_none none, Keyed.keys, h.keys]
  case nodup =>
    refine List.nodup_append.mpr ⟨h.nodup, List.nodup_singleton name, fun other mem _ is same => ?_⟩
    exact fresh (List.mem_singleton.mp is ▸ same ▸ mem)
  case count =>
    have before : r.active.flatMap (r.extend name fs).featuresOf = r.visits :=
      List.flatMap_congr fun other mem => featuresOf_extend_ne fun same => fresh (same ▸ mem)
    have visits : (r.extend name fs).visits = r.visits ++ fs := by
      change (r.active ++ [name]).flatMap (r.extend name fs).featuresOf = _
      rw [List.flatMap_append, before, List.flatMap_singleton, featuresOf_extend_self]
    change r.count + (fs.length : Int) = _
    rw [visits, List.length_append, h.count, Int.natCast_add]

theorem read {space : FeatureSpace} {entries : List (String × List (Written Int × Written Float))}
    (h : r.Counted) (distinct : (r.active ++ entries.map Prod.fst).Nodup)
    (hr : entries.foldlM (readNamespace space) r = .ok r') : r'.Counted := by
  induction entries generalizing r
  case nil =>
    cases hr
    exact h
  case cons entry entries hi =>
    rw [List.foldlM_cons] at hr
    obtain ⟨r₁, first, rest⟩ := Attempt.bind_eq_ok.mp hr
    simp only [readNamespace] at first
    split at first <;> try contradiction
    obtain ⟨fs, _, he⟩ := Attempt.bind_eq_ok.mp first
    cases he
    have fresh : entry.1 ∉ r.active := fun mem =>
      (List.nodup_append.mp distinct).right.right _ mem _ (by simp) rfl
    exact hi (h.extend fresh fs) (by simpa [Record.extend] using distinct) rest

end Counted

theorem counted_of_ofSource {space : FeatureSpace} {source : Source}
    (distinct : (source.features.map Prod.fst).Nodup) (h : ofSource space source = .ok r) :
    r.Counted := by
  have ⟨costs, _, hr⟩ := Attempt.bind_eq_ok.mp h
  exact (Counted.plain costs).read distinct hr

-- Each time a namespace is active the model goes through all that it files, so what is added to the
-- neighbor namespace counts as often as that is active, and once more since it then becomes so.
theorem length_visits_receive (r : Record) (fs : List Feature) :
    (r.receive fs).visits.length = r.visits.length + r.active.count neighborNamespace * fs.length +
      ((r.receive fs).featuresOf neighborNamespace).length := by
  have before (names : List String) : (names.flatMap (r.receive fs).featuresOf).length =
      (names.flatMap r.featuresOf).length + names.count neighborNamespace * fs.length := by
    induction names
    case nil => simp
    case cons name names hi =>
      rw [List.flatMap_cons, List.length_append, hi, List.flatMap_cons, List.length_append]
      by_cases own : name = neighborNamespace
      case pos =>
        subst own
        rw [featuresOf_receive_self, List.length_append, List.count_cons_self, Nat.succ_mul]
        omega
      case neg =>
        rw [featuresOf_receive_ne own, List.count_cons_of_ne own, Nat.add_assoc]
  change ((r.active ++ [neighborNamespace]).flatMap (r.receive fs).featuresOf).length = _
  rw [List.flatMap_append, List.length_append, before, List.flatMap_singleton]
  rfl

-- How many products two namespaces have.
def products (r : Record) (pair : String × String) : Nat :=
  (r.featuresOf pair.1).length * (r.featuresOf pair.2).length

theorem featuresOf_of_plain (h : r'.plain = r.plain) : r'.featuresOf = r.featuresOf := by
  have featuresOf (r : Record) : r.featuresOf = r.plain.featuresOf := rfl
  rw [featuresOf, h, ← featuresOf]

theorem products_of_plain (h : r'.plain = r.plain) : r'.products = r.products :=
  funext fun pair => by rw [products, products, featuresOf_of_plain h]

theorem count_foldl_cross (pairs : List (String × String)) (r : Record) :
    (pairs.foldl cross r).count = r.count + (pairs.map r.products).sum := by
  induction pairs generalizing r
  case nil => simp
  case cons pair pairs hi =>
    have same : (r.cross pair).products = r.products := products_of_plain rfl
    rw [List.foldl_cons, hi, same, List.map_cons, List.sum_cons, Int.natCast_add, ← Int.add_assoc]
    rfl

end Record

namespace Workbench

open Record

variable {w : Workbench} {r : Record} {fs : List Feature}

-- How often the model goes through features that the counter leaves out: those of the neighbor
-- namespace, if it has been active before.
def overlooked (r r' : Record) : Nat :=
  if neighborNamespace ∈ r.active then (r'.featuresOf neighborNamespace).length else 0

theorem count_augmented (w : Workbench) (counted : r.Counted) (fs : List Feature) :
    (w.augmented r fs).count + overlooked r (w.augmented r fs) =
      (w.augmented r fs).visits.length +
        (w.augmenter.space.neighborPairs.map (w.augmented r fs).products).sum := by
  have plain : (w.augmented r fs).plain = (r.receive fs).plain := plain_foldl_cross ..
  have count : (w.augmented r fs).count = r.visits.length + fs.length +
      (w.augmenter.space.neighborPairs.map (r.receive fs).products).sum := by
    rw [augmented, count_foldl_cross, ← counted.count]
    rfl
  have features : (w.augmented r fs).featuresOf = (r.receive fs).featuresOf :=
    featuresOf_of_plain plain
  have length := r.length_visits_receive fs
  rw [count, products_of_plain plain, visits_eq_of_plain plain, overlooked, features, length]
  by_cases active : neighborNamespace ∈ r.active
  case pos =>
    rw [if_pos active, List.count_eq_one_of_mem counted.nodup active]
    omega
  case neg =>
    have none : r.features.get? neighborNamespace = none :=
      Keyed.get?_eq_none_iff.mpr (counted.keys ▸ active)
    have alone : (r.receive fs).featuresOf neighborNamespace = fs := by
      rw [featuresOf_receive_self, featuresOf, none, Option.getD_none, List.nil_append]
    rw [if_neg active, List.count_eq_zero_of_not_mem active, alone]
    omega

-- The counter of an augmented node tells what the model goes through, the products with the neighbor
-- namespace included, unless that namespace has been active before: the model then goes through it
-- twice, and the counter has it once.
theorem counter_of_augmented {bound : Option Int} {records : List Record} {pred : Array Int} {n labels : Nat}
    (built : Episode.toGraph bound records = .ok w.graph)
    (sourced : ∀ r ∈ records, ∃ space source,
      (source.features.map Prod.fst).Nodup ∧ ofSource space source = .ok r)
    (hn : n < w.graph.nodes.size)
    (labeled : ∀ m < w.graph.nodes.size, ∃ x, pred[m]? = some x ∧ 1 ≤ x ∧ x ≤ (labels : Int) + 1)
    (movable : Augmenter.Movable w.augmenter.space w.graph.edges)
    (size : w.augmenter.scratch.cells.size = labels + 1) (idle : w.augmenter.active = none) :
    ∃ r r' token u, w.graph.node n = .ok r ∧ augment n pred w = .ok token u ∧ u.graph.node n = .ok r' ∧
      r'.count + overlooked r r' =
        r'.visits.length + (w.augmenter.space.neighborPairs.map r'.products).sum ∧
      (r'.count = r'.visits.length + (w.augmenter.space.neighborPairs.map r'.products).sum ↔
        (neighborNamespace ∈ r.active → r'.featuresOf neighborNamespace = [])) := by
  have ⟨_, sound⟩ := Episode.exists_sound_toGraph built
  have ⟨es, hi⟩ := sound.incident_ok hn
  have ⟨edges, he, mem⟩ := sound.edges_ok hi
  have hr : w.graph.node n = .ok w.graph.nodes[n] := Hypergraph.lookup_natCast hn
  have counted : w.graph.nodes[n].Counted := by
    have listed : w.graph.nodes[n] ∈ records :=
      Episode.records_toGraph built ▸ Hypergraph.mem_records.mpr (.inl (Array.getElem_mem hn))
    have ⟨_, _, distinct, read⟩ := sourced _ listed
    exact counted_of_ofSource distinct read
  have ⟨u, augmented, node⟩ := augment_ok idle size hi he hr
    (fun edge hedge => Augmenter.countable_of_labeled sound labeled (mem edge hedge))
    (fun edge hedge => movable edge (mem edge hedge))
  have count := count_augmented w counted (edges.flatMap (w.augmenter.share labels pred n))
  refine ⟨_, _, _, u, hr, augmented, node, count, ?_⟩
  rw [← count, overlooked]
  by_cases active : neighborNamespace ∈ w.graph.nodes[n].active
  case pos => simp [active]
  case neg => simp [active]

-- Two nodes that are joined by an edge with one feature. The first has a feature of its own, and the
-- products of that with the neighbor namespace count as well.
theorem counter_of_augmented_pair :
    let space := { FeatureSpace.standard with pairs := [String.ofList ['n', Char.ofNat 131]] }
    let own := Record.extend {} (String.singleton 'n') [⟨1.0, space.place 1⟩]
    let w : Workbench := {
      graph     := Episode.graphOf ⟨#[own, {}], #[pairEdge space 1]⟩
      augmenter := { labels := 1, space, useStructure := true, scratch := { cells := #[0, 0] } } }
    ∃ r r' token u, w.graph.node 0 = .ok r ∧ augment 0 #[2, 1] w = .ok token u ∧
      u.graph.node 0 = .ok r' ∧ neighborNamespace ∉ r.active ∧
      r'.count = r'.visits.length + (space.neighborPairs.map r'.products).sum := by
  intro space own w
  have built : Episode.toGraph none [own, {}, pairEdge space 1] = .ok w.graph := rfl
  have sourced : ∀ r ∈ [own, {}, pairEdge space 1], ∃ space source,
      (source.features.map Prod.fst).Nodup ∧ ofSource space source = .ok r := by
    let named (name : String) (costs : List (Written Int × Written Float)) : Source :=
      { costs, features := [(name, [(.value 1, .value 1.0)])] }
    let ends := [(Written.value (1 : Int), Written.value (1.0 : Float)), (.value 2, .value 1.0)]
    intro r hr
    simp only [List.mem_cons, List.not_mem_nil, or_false] at hr
    obtain rfl | rfl | rfl := hr
    case inl =>
      exact ⟨space, named (String.singleton 'n') [], List.nodup_singleton _, ofSource_single rfl rfl rfl rfl⟩
    case inr.inl => exact ⟨space, {}, .nil, rfl⟩
    case inr.inr =>
      exact ⟨space, named (String.singleton 'a') ends, List.nodup_singleton _, ofSource_single rfl rfl rfl rfl⟩
  have labeled : ∀ m < 2, ∃ x, #[2, 1][m]? = some x ∧ 1 ≤ x ∧ x ≤ ((1 : Nat) : Int) + 1
    | 0, _ => ⟨2, rfl, by decide⟩
    | 1, _ => ⟨1, rfl, by decide⟩
  have movable : Augmenter.Movable space #[pairEdge space 1] := by
    intro r hr f hf
    cases Array.mem_singleton.mp hr
    cases List.mem_singleton.mp (hf : f ∈ [⟨1.0, space.place 1⟩])
    exact FeatureSpace.aligned_place_iff.mpr (.inl (Nat.one_dvd _)) 1
  have ⟨r, r', token, u, hr, augmented, hr', _, exact_iff⟩ :=
    counter_of_augmented (n := 0) built sourced (by decide) labeled movable rfl rfl
  cases hr.symm.trans (rfl : w.graph.node 0 = .ok own)
  have inactive : neighborNamespace ∉ own.active := by decide
  exact ⟨own, r', token, u, hr, augmented, hr', inactive, exact_iff.mpr fun active => absurd active inactive⟩

theorem counter_falls_short :
    let kept := Record.extend {} neighborNamespace [⟨1.0, FeatureSpace.standard.place 1⟩]
    let w : Workbench := {
      graph     := Episode.graphOf ⟨#[kept], #[]⟩
      augmenter := { labels := 1, space := .standard, useStructure := true, scratch := { cells := #[0, 0] } } }
    (∃ source, (source.features.map Prod.fst).Nodup ∧ ofSource .standard source = .ok kept) ∧
    Episode.toGraph none [kept] = .ok w.graph ∧
    ∃ r' token u, augment 0 #[2] w = .ok token u ∧ u.graph.node 0 = .ok r' ∧
      w.augmenter.space.neighborPairs = [] ∧ r'.count = 1 ∧ r'.visits.length = 2 := by
  intro kept w
  let source : Source := { features := [(neighborNamespace, [(.value 1, .value 1.0)])] }
  have read : ofSource .standard source = .ok kept := ofSource_single rfl rfl rfl rfl
  refine ⟨⟨source, by simp [source], read⟩, rfl, _, _, _, rfl, rfl, rfl, ?_, ?_⟩
  case refine_1 => rfl
  case refine_2 => rfl

end Workbench
end CollectiveLabeling
