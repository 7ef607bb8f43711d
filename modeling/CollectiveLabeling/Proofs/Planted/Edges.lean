import CollectiveLabeling.Proofs.Cliques
import CollectiveLabeling.Proofs.Hypergraph.Clique
import CollectiveLabeling.Proofs.Planted.Labels
import Mathlib.Data.List.Pairwise

namespace CollectiveLabeling.Planted

variable {d : Drawing} {perm : List Nat} {edges : List (Nat × Nat)}
  {find : Cliques.Finder} {n u v : Nat}

-- There is an edge from one to the other, whichever end comes first.
def Joined (edges : List (Nat × Nat)) (u v : Nat) : Prop :=
  (u, v) ∈ edges ∨ (v, u) ∈ edges

theorem Joined.symm (h : Joined edges u v) : Joined edges v u :=
  Or.symm h

-- Turning edges round makes no difference.
theorem joined_oriented : Joined (d.edges.map d.oriented) u v ↔ Joined d.edges u v := by
  have turned (e : Nat × Nat) : d.oriented e = e ∨ d.oriented e = e.swap := by
    simp only [Drawing.oriented]
    split
    case isTrue => exact .inl rfl
    case isFalse => exact .inr rfl
  simp only [Joined, List.mem_map]
  constructor
  case mp =>
    rintro (⟨e, he, same⟩ | ⟨e, he, same⟩)
    all_goals
      cases turned e <;> grind
  case mpr =>
    rintro (he | he)
    all_goals
      cases turned (u, v) <;> cases turned (v, u) <;> grind

theorem joined_renumberedEdges : Joined (renumberedEdges perm d) u v ↔
    ∃ a b, Joined d.edges a b ∧ u = renumbered perm a ∧ v = renumbered perm b := by
  simp only [← joined_oriented (d := d)]
  simp only [renumberedEdges, Joined, List.mem_mergeSort, List.mem_map, mem_distinct, Prod.exists,
    Prod.mk.injEq]
  grind

theorem mem_neighborsIn : v ∈ neighborsIn edges u ↔ u ≠ v ∧ Joined edges u v := by
  simp only [neighborsIn, List.mem_filterMap, Joined, Prod.exists]
  constructor
  case mp =>
    rintro ⟨a, b, he, found⟩
    split at found
    case isTrue out =>
      cases found
      grind
    case isFalse =>
      split at found
      case isTrue into =>
        cases found
        grind
      case isFalse => cases found
  case mpr =>
    rintro ⟨ne, he | he⟩
    case inl => exact ⟨u, v, he, by simp [ne.symm]⟩
    case inr => exact ⟨v, u, he, by simp [ne.symm]⟩

theorem of_mem_largeCliques (sound : find.Sound) {c : List Nat} (h : c ∈ largeCliques find n edges) :
    3 ≤ c.length ∧ (∀ v ∈ c, v < n) ∧ ∀ u ∈ c, ∀ v ∈ c, u ≠ v → Joined edges u v := by
  simp only [largeCliques, List.mem_mergeSort, List.mem_map, List.mem_filter, decide_eq_true_eq] at h
  obtain ⟨found, ⟨maximal, large⟩, rfl⟩ := h
  have symmetric (u v : Nat) (next : u ∈ neighborsIn edges v) : v ∈ neighborsIn edges u :=
    have ⟨ne, joined⟩ := mem_neighborsIn.mp next
    mem_neighborsIn.mpr ⟨ne.symm, joined.symm⟩
  have clique := sound _ _ symmetric found maximal
  have joined : found.Pairwise (Joined edges) := clique.pairwise.imp fun next =>
    (mem_neighborsIn.mp next).right.symm
  simp only [List.length_mergeSort, List.mem_mergeSort]
  refine ⟨large, fun v hv => List.mem_range.mp (clique.inside v hv), fun u hu v hv ne => ?_⟩
  have : Std.Symm (Joined edges) := ⟨fun _ _ => Joined.symm⟩
  exact joined.forall hu hv ne

end CollectiveLabeling.Planted
