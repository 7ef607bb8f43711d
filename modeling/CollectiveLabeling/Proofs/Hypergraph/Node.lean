import CollectiveLabeling.Proofs.Record

namespace CollectiveLabeling.Hypergraph

theorem lookup_eq_ok {α : Type} {xs : Array α} {i : Int} {x : α} :
    lookup xs i = .ok x ↔ ∃ p, Index.place? xs.size i = some p ∧ xs[p]? = some x := by
  simp only [lookup]
  cases Index.place? xs.size i
  case none => simp
  case some p => cases hx : xs[p]? <;> simp [hx]

theorem lookup_natCast {α : Type} {xs : Array α} {p : Nat} (h : p < xs.size) :
    lookup xs p = .ok xs[p] :=
  lookup_eq_ok.mpr ⟨p, Index.place?_natCast h, by simp [h]⟩

theorem mem_records {g : Hypergraph} {r : Record} : r ∈ g.records ↔ r ∈ g.nodes ∨ r ∈ g.edges := by
  rw [records, List.mem_append, Array.mem_toList_iff, Array.mem_toList_iff]

-- Zero stands for no label.
def trueLabels (g : Hypergraph) : List Int :=
  g.nodes.toList.map Record.label

theorem trueLabels_eq {g h : Hypergraph} (hc : g.nodes.map Record.costs = h.nodes.map Record.costs) :
    g.trueLabels = h.trueLabels := by
  have costs (f : Hypergraph) : f.trueLabels =
      (f.nodes.map Record.costs).toList.map fun costs => Record.label { costs } := by
    simp [trueLabels, Record.label]
  rw [costs, costs, hc]

-- Puts a record in the place of a node. A number that leads nowhere changes nothing.
def setNode (g : Hypergraph) (n : Int) (r : Record) : Hypergraph :=
  match Index.place? g.nodes.size n with
  | some p => { g with nodes := g.nodes.setIfInBounds p r }
  | none => g

section SetNode

variable (g : Hypergraph) (n : Int) (r r' : Record)

@[simp]
theorem setNode_edges : (g.setNode n r).edges = g.edges := by
  simp only [setNode]
  split <;> rfl

@[simp]
theorem setNode_adjacency : (g.setNode n r).adjacency = g.adjacency := by
  simp only [setNode]
  split <;> rfl

@[simp]
theorem setNode_size : (g.setNode n r).nodes.size = g.nodes.size := by
  simp only [setNode]
  split <;> simp

theorem setNode_setNode : (g.setNode n r).setNode n r' = g.setNode n r' := by
  cases hp : Index.place? g.nodes.size n
  case none => simp [setNode, hp]
  case some p =>
    simp only [setNode, hp, Array.size_setIfInBounds]
    simp

-- The edges at a node do not depend on what the nodes hold.
@[simp]
theorem setNode_neighbors (m : Int) : (g.setNode n r).neighbors m = g.neighbors m := by
  simp [neighbors, incident, others, members, edge]

end SetNode

variable {g : Hypergraph} {n : Int} {r : Record}

theorem node_setNode (h : g.node n = .ok r) (r' : Record) : (g.setNode n r').node n = .ok r' := by
  have ⟨p, hp, hr⟩ := lookup_eq_ok.mp h
  have hlt := Index.lt_of_place? hp
  exact lookup_eq_ok.mpr ⟨p, by simpa using hp, by simp [setNode, hp, hlt]⟩

theorem setNode_self (h : g.node n = .ok r) : g.setNode n r = g := by
  have ⟨p, hp, hr⟩ := lookup_eq_ok.mp h
  simp only [setNode, hp]
  congr 1
  ext i hi hi'
  case h₁ => simp
  case h₂ =>
    rw [Array.getElem_setIfInBounds hi']
    split
    case isTrue he => subst he; simpa [hi'] using hr.symm
    case isFalse => rfl

-- The graph after an augmentation of a node has been taken back.
def settle (g : Hypergraph) (n : Int) : Hypergraph :=
  match g.node n with
  | .ok r => g.setNode n r.settled
  | .error _ => g

theorem settle_of_ok (h : g.node n = .ok r) : g.settle n = g.setNode n r.settled := by
  simp [settle, h]

@[simp]
theorem settle_edges (g : Hypergraph) (n : Int) : (g.settle n).edges = g.edges := by
  simp only [settle]
  split <;> simp

@[simp]
theorem settle_adjacency (g : Hypergraph) (n : Int) : (g.settle n).adjacency = g.adjacency := by
  simp only [settle]
  split <;> simp

theorem mem_of_node (h : g.node n = .ok r) : r ∈ g.nodes := by
  have ⟨_, _, hr⟩ := lookup_eq_ok.mp h
  exact Array.mem_of_getElem? hr

theorem settle_eq_self (h : ∀ r ∈ g.nodes, r.Filed) : g.settle n = g := by
  simp only [settle]
  split
  case h_2 => rfl
  case h_1 r hr => rw [(h r <| mem_of_node hr).settled_eq, setNode_self hr]

end CollectiveLabeling.Hypergraph
