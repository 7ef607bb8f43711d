import CollectiveLabeling.Proofs.Neighborhood

namespace CollectiveLabeling

open Step

theorem Keyed.erase_eq_self_iff {α : Type} {m : Keyed α} {key : String} :
    m.erase key = m ↔ m.get? key = none := by
  constructor
  case mpr => exact erase_of_get?_none
  case mp =>
    intro h
    induction m
    case nil => rfl
    case cons entry rest hi =>
      by_cases hk : entry.1 = key
      case pos =>
        simp only [erase, hk, if_true] at h
        exact absurd (congrArg List.length h) (by simp)
      case neg =>
        simp only [erase, hk, if_false, List.cons.injEq, true_and] at h
        simpa [get?, hk] using hi h

-- Features and squares of the neighbor namespace are noted apart in an augmentation, but squares
-- without features are not put back.
def Record.Restorable (r : Record) : Prop :=
  r.features.get? neighborNamespace = none → r.squares.get? neighborNamespace = none

theorem Record.settled_eq_self_iff {r : Record} : r.settled = r ↔ r.Restorable := by
  simp only [settled, Restorable]
  split
  case isFalse hf => simp [hf]
  case isTrue hf =>
    constructor
    case mp => exact fun h _ => Keyed.erase_eq_self_iff.mp (congrArg Record.squares h)
    case mpr => exact fun h => by rw [Keyed.erase_eq_self_iff.mpr (h hf)]

theorem Hypergraph.settle_eq_self_iff {g : Hypergraph} {n : Int} :
    g.settle n = g ↔ ∀ r, g.node n = .ok r → r.Restorable := by
  constructor
  case mp =>
    intro h r hr
    have hs := node_setNode hr r.settled
    rw [← settle_of_ok hr, h, hr] at hs
    exact Record.settled_eq_self_iff.mp (Except.ok.inj hs).symm
  case mpr =>
    intro h
    cases hn : g.node n
    case error => simp [settle, hn]
    case ok r => rw [settle_of_ok hn, Record.settled_eq_self_iff.mpr (h r hn), setNode_self hn]

namespace Workbench

variable {w : Workbench} {n : Int} {pred : Array Int}

-- Augments a node and takes that back again. A node that cannot be augmented is left alone.
def visit (n : Int) (pred : Array Int) : Step Workbench Unit :=
  augment n pred >>= revert

-- Taking back never fails, and it leaves nothing behind but the spent tally and the serial number.
theorem visit_apply (idle : w.augmenter.active = none) (n : Int) (pred : Array Int) :
    visit n pred w = match w.graph.node n, w.augmenter.lent w.graph pred n with
      | .ok _, .ok _ => .ok ⟨⟩ (w.rested n pred)
      | .ok _, .error f => .error f (w.rested n pred)
      | .error f, _ => .error f (w.rested n pred) := by
  cases hn : w.graph.node n
  case error f => simp [visit, augment_error pred idle hn, rested, hn]
  case ok r =>
    simp only [visit, bind_apply, augment_apply pred idle hn]
    cases w.augmenter.lent w.graph pred n
    case error => rfl
    case ok fs => exact revert_laden pred idle hn fs

theorem outcome_visit (idle : w.augmenter.active = none) (n : Int) (pred : Array Int) :
    (outcome (visit n pred) w).2 = w.rested n pred := by
  simp only [outcome, visit_apply idle]
  cases w.graph.node n <;> cases w.augmenter.lent w.graph pred n <;> rfl

-- Whatever the records look like, taking back never fails and leaves no augmentation active. The
-- graph is what it was unless the node has squares in the neighbor namespace without having features
-- there; these are dropped and nothing else is.
theorem restored_iff (idle : w.augmenter.active = none) (n : Int) (pred : Array Int) :
    (∀ token t, augment n pred w = .ok token t → ∃ u, revert token t = .ok ⟨⟩ u) ∧
    (outcome (visit n pred) w).2.augmenter.active = none ∧
    (outcome (visit n pred) w).2.graph = w.graph.settle n ∧
    ((outcome (visit n pred) w).2.graph = w.graph ↔
      ∀ r, w.graph.node n = .ok r → r.Restorable) := by
  rw [outcome_visit idle, rested_graph, rested_active]
  refine ⟨fun token t h => ?_, idle, rfl, Hypergraph.settle_eq_self_iff⟩
  cases hn : w.graph.node n
  case error => simp [augment_error pred idle hn] at h
  case ok r =>
    rw [augment_apply pred idle hn] at h
    cases hl : w.augmenter.lent w.graph pred n <;> simp only [hl] at h <;> cases h
    case ok fs => exact ⟨_, revert_laden pred idle hn fs⟩

-- A bench with a single node at which there are no edges.
def solitary (r : Record) : Workbench where
  graph := { nodes := #[r], edges := #[], adjacency := #[[]] }
  augmenter := {
    labels := 1, space := .standard, useStructure := true, scratch := { cells := #[0, 0] } }

-- Here it is the other way round: the node has features but no squares.
theorem restored_iff_features :
    let w := solitary { features := [(neighborNamespace, [⟨1.0, 4⟩])], active := [neighborNamespace] }
    w.augmenter.active = none ∧
    (∀ token t, augment 0 #[2] w = .ok token t → ∃ u, revert token t = .ok ⟨⟩ u) ∧
    (outcome (visit 0 #[2]) w).2.augmenter.active = none ∧
    (outcome (visit 0 #[2]) w).2.graph = w.graph.settle 0 ∧
    ((outcome (visit 0 #[2]) w).2.graph = w.graph ↔
      ∀ r, w.graph.node 0 = .ok r → r.Restorable) :=
  ⟨rfl, restored_iff rfl 0 #[2]⟩

theorem squares_without_features_are_lost :
    let w := solitary { squares := [(neighborNamespace, 2.0)] }
    w.augmenter.active = none ∧ ∃ token t u, augment 0 #[2] w = .ok token t ∧
      revert token t = .ok ⟨⟩ u ∧ u.graph ≠ w.graph := by
  intro w
  have node : w.graph.node 0 = .ok { squares := [(neighborNamespace, 2.0)] } := rfl
  have lent : w.augmenter.lent w.graph #[2] 0 = .ok [] := rfl
  have augmented := augment_apply #[2] rfl node
  rw [lent] at augmented
  refine ⟨rfl, _, _, _, augmented, revert_laden #[2] rfl node [], fun h => ?_⟩
  rw [rested_graph, Hypergraph.settle_eq_self_iff] at h
  cases h _ node rfl

end Workbench
end CollectiveLabeling
