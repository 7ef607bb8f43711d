import CollectiveLabeling.Proofs.Course.Labels

namespace CollectiveLabeling

-- What decisions never change. The graph as a whole stays what it was only if its nodes are filed
-- properly; of the scratch tally only the size stays.
structure Workbench.Same (w w' : Workbench) : Prop where
  graph      : (∀ r ∈ w.graph.nodes, r.Filed) → w'.graph = w.graph
  costs      : w'.graph.nodes.map Record.costs = w.graph.nodes.map Record.costs
  edges      : w'.graph.edges = w.graph.edges
  adjacency  : w'.graph.adjacency = w.graph.adjacency
  labels     : w'.augmenter.labels = w.augmenter.labels
  space      : w'.augmenter.space = w.augmenter.space
  structured : w'.augmenter.useStructure = w.augmenter.useStructure
  active     : w'.augmenter.active = w.augmenter.active
  scratch    : w'.augmenter.scratch.cells.size = w.augmenter.scratch.cells.size

namespace Hypergraph

theorem costs_setNode {g : Hypergraph} {n : Int} {r r' : Record} (h : g.node n = .ok r)
    (hc : r'.costs = r.costs) :
    (g.setNode n r').nodes.map Record.costs = g.nodes.map Record.costs := by
  have ⟨p, hp, hr⟩ := lookup_eq_ok.mp h
  simp only [setNode, hp]
  refine Array.ext (by simp) fun i _ hi => ?_
  replace hi : i < g.nodes.size := by simpa using hi
  simp only [Array.getElem_map, Array.getElem_setIfInBounds hi]
  split
  case isTrue he =>
    subst he
    have : g.nodes[p] = r := by simpa [hi] using hr
    rw [this, hc]
  case isFalse => rfl

theorem costs_settle (g : Hypergraph) (n : Int) :
    (g.settle n).nodes.map Record.costs = g.nodes.map Record.costs := by
  simp only [settle]
  split
  case h_2 => rfl
  case h_1 r hr => exact costs_setNode hr r.settled_costs

-- Soundness only looks at what decisions leave alone.
theorem Sound.of_costs {g g' : Hypergraph} {labels : Nat} (h : g.Sound labels)
    (hc : g'.nodes.map Record.costs = g.nodes.map Record.costs) (he : g'.edges = g.edges)
    (ha : g'.adjacency = g.adjacency) : g'.Sound labels := by
  have hs : g'.nodes.size = g.nodes.size := by simpa using congrArg Array.size hc
  constructor
  case label =>
    intro r hr
    have hm : r.costs ∈ g.nodes.map Record.costs := hc ▸ Array.mem_map_of_mem hr
    have ⟨r', hr', hc'⟩ := Array.mem_map.mp hm
    have := h.label r' hr'
    simpa [Record.label, hc'] using this
  case members => exact fun r hr m hm => hs ▸ h.members r (he ▸ hr) m hm
  case size => rw [ha, hs, h.size]
  case incident => exact fun es hes e hm => he ▸ h.incident es (ha ▸ hes) e hm

end Hypergraph

namespace Workbench.Same

variable {w w₁ w₂ w₃ : Workbench}

theorem refl (w : Workbench) : w.Same w :=
  ⟨fun _ => rfl, rfl, rfl, rfl, rfl, rfl, rfl, rfl, rfl⟩

theorem size (h : w₁.Same w₂) : w₂.graph.nodes.size = w₁.graph.nodes.size := by
  simpa using congrArg Array.size h.costs

theorem trans (h₁ : w₁.Same w₂) (h₂ : w₂.Same w₃) : w₁.Same w₃ where
  graph h    := (h₂.graph (h₁.graph h ▸ h)).trans (h₁.graph h)
  costs      := h₂.costs.trans h₁.costs
  edges      := h₂.edges.trans h₁.edges
  adjacency  := h₂.adjacency.trans h₁.adjacency
  labels     := h₂.labels.trans h₁.labels
  space      := h₂.space.trans h₁.space
  structured := h₂.structured.trans h₁.structured
  active     := h₂.active.trans h₁.active
  scratch    := h₂.scratch.trans h₁.scratch

theorem rested (w : Workbench) (n : Int) (pred : Array Int) : w.Same (w.rested n pred) := by
  simp only [Workbench.rested]
  split
  case h_2 => exact refl w
  case h_1 r _ =>
    exact {
      graph      := w.graph.settle_eq_self
      costs      := w.graph.costs_settle n
      edges      := w.graph.settle_edges n
      adjacency  := w.graph.settle_adjacency n
      labels     := rfl
      space      := rfl
      structured := rfl
      active     := rfl
      scratch    := Augmenter.spent_size }

end Workbench.Same

namespace Course

open Step

variable {σ : Type} [Decider σ] {c : Course σ} {labels : Nat} {plan : Plan}

theorem rested_same (c : Course σ) (n : Nat) : c.bench.Same (c.rested n).bench := by
  simp only [rested]
  split
  case isTrue => exact .rested ..
  case isFalse => exact .refl _

-- The courses that decisions can lead to, as far as the bench is concerned.
def From (w : Workbench) (c : Course σ) : Prop :=
  w.augmenter.active = none ∧ w.Same c.bench

omit [Decider σ] in
theorem From.idle {w : Workbench} (h : c.From w) : c.Idle :=
  h.right.active.trans h.left

theorem bench_decideNode (labels : Nat) (plan : Plan) (i n : Nat) (idle : c.Idle) :
    (outcome (decideNode labels plan i n) c).2.bench = (c.rested n).bench := by
  simp only [outcome, decideNode_eq labels plan i n idle]
  cases c.question plan i n
  case error => rfl
  case ok q =>
    cases hd : Decider.decide q c.mind
    case error => simp [hd]
    case ok label mind => by_cases hl : 1 ≤ label ∧ label ≤ labels <;> simp [hd, hl]

-- The host's mind is only changed by its answer.
theorem mind_decideNode (labels : Nat) (plan : Plan) (i n : Nat) (idle : c.Idle) :
    (outcome (decideNode labels plan i n) c).2.mind = match c.question plan i n with
      | .ok q => (outcome (Decider.decide q) c.mind).2
      | .error _ => c.mind := by
  simp only [outcome, decideNode_eq labels plan i n idle]
  cases c.question plan i n
  case error => simp
  case ok q =>
    cases hd : Decider.decide q c.mind
    case error => simp [hd]
    case ok label mind => by_cases hl : 1 ≤ label ∧ label ≤ labels <;> simp [hd, hl]

theorem keeps_decideNode (w : Workbench) (labels : Nat) (plan : Plan) (i n : Nat) :
    Keeps (From w) (decideNode (σ := σ) labels plan i n) := by
  intro c h
  refine ⟨h.left, ?_⟩
  rw [bench_decideNode labels plan i n h.idle]
  exact h.right.trans (c.rested_same n)

theorem keeps_follow (labels : Nat) (plan : Plan) (w : Workbench) (schedule : List (Nat × Nat)) :
    Keeps (From w) (follow (σ := σ) labels plan schedule) :=
  Keeps.forM fun (i, n) _ => keeps_decideNode w labels plan i n

-- What all answers of a host keep, its decisions keep.
section Mind

variable {I : σ → Prop} (hI : ∀ q, Keeps I (Decider.decide q))
include hI

theorem keeps_mind_decideNode (labels : Nat) (plan : Plan) (i n : Nat) :
    Keeps (fun c : Course σ => c.Idle ∧ I c.mind) (decideNode labels plan i n) := by
  intro c ⟨idle, hc⟩
  constructor
  case left =>
    rw [Idle, bench_decideNode labels plan i n idle]
    exact rested_idle idle n
  case right =>
    rw [mind_decideNode labels plan i n idle]
    cases c.question plan i n
    case error => exact hc
    case ok q => exact hI q c.mind hc

theorem keeps_mind_follow (schedule : List (Nat × Nat)) :
    Keeps (fun c : Course σ => c.Idle ∧ I c.mind) (follow labels plan schedule) :=
  Keeps.forM fun (i, n) _ => keeps_mind_decideNode hI labels plan i n

-- What all answers of a host keep, a row of decisions keeps.
theorem Chain.mind {ds : List (Decision σ)} {c' : Course σ} (h : Chain labels plan c ds c')
    (hc : I c.mind) : I c'.mind := by
  induction h
  case nil => exact hc
  case cons hd _ hi =>
    have ⟨q, mind, _, answer, he⟩ := hd.answer
    exact hi (he ▸ (hI q).of_ok hc answer)

end Mind
end Course
end CollectiveLabeling
