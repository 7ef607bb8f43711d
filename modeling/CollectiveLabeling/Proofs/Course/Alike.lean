import CollectiveLabeling.Proofs.Apprentice
import CollectiveLabeling.Proofs.Course.Preserved

namespace CollectiveLabeling

open Step

namespace Record

theorem bare_foldl_cross (pairs : List (String × String)) (r : Record) :
    (pairs.foldl cross r).bare = pairs.foldl cross r.bare := by
  induction pairs generalizing r
  case nil => rfl
  case cons pair pairs hi => exact hi (r.cross pair)

theorem bare_settled (r : Record) : r.settled.bare = r.bare.settled := by
  by_cases h : r.features.get? neighborNamespace = none <;> simp [settled, bare, h]

end Record

namespace Hypergraph

-- A graph without the true labels of its nodes.
def bare (g : Hypergraph) : Hypergraph :=
  { g with nodes := g.nodes.map Record.bare }

variable (g : Hypergraph) (n : Int)

theorem lookup_map {α β : Type} (f : α → β) (xs : Array α) (i : Int) :
    lookup (xs.map f) i = f <$> lookup xs i := by
  simp only [lookup]
  simp only [Array.size_map]
  cases Index.place? xs.size i
  case none => rfl
  case some p => cases hp : xs[p]? <;> simp [hp]

theorem node_bare : g.bare.node n = Record.bare <$> g.node n :=
  lookup_map ..

theorem neighbors_bare : g.bare.neighbors n = g.neighbors n :=
  rfl

theorem bare_setNode (r : Record) : (g.setNode n r).bare = g.bare.setNode n r.bare := by
  simp only [setNode, bare, Array.size_map]
  cases Index.place? g.nodes.size n <;> simp

theorem bare_settle : (g.settle n).bare = g.bare.settle n := by
  simp only [settle, node_bare]
  cases g.node n
  case error => rfl
  case ok r => simp only [Attempt.map_ok, bare_setNode, Record.bare_settled]

end Hypergraph

-- Two benches that only differ in the true labels of the nodes and in what the augmenters have done
-- before.
structure Workbench.Alike (w w' : Workbench) : Prop where
  graph      : w'.graph.bare = w.graph.bare
  space      : w'.augmenter.space = w.augmenter.space
  structured : w'.augmenter.useStructure = w.augmenter.useStructure
  scratch    : w'.augmenter.scratch.cells.size = w.augmenter.scratch.cells.size

namespace Workbench.Alike

variable {w w' : Workbench} (h : w.Alike w') (n : Int) (pred : Array Int)
include h

theorem edges : w'.graph.edges = w.graph.edges :=
  congrArg (·.edges) h.graph

theorem adjacency : w'.graph.adjacency = w.graph.adjacency :=
  congrArg (·.adjacency) h.graph

theorem node : Record.bare <$> w'.graph.node n = Record.bare <$> w.graph.node n := by
  rw [← Hypergraph.node_bare, ← Hypergraph.node_bare, h.graph]

theorem neighbors : w'.graph.neighbors n = w.graph.neighbors n := by
  rw [← Hypergraph.neighbors_bare, h.graph, Hypergraph.neighbors_bare]

theorem lent : w'.augmenter.lent w'.graph pred n = w.augmenter.lent w.graph pred n :=
  Augmenter.lent_congr h.space h.structured h.scratch h.edges h.adjacency

theorem augmented {r r' : Record} (hr : r'.bare = r.bare) (fs : List Feature) :
    (w'.augmented r' fs).bare = (w.augmented r fs).bare := by
  have receive (r : Record) : (r.receive fs).bare = r.bare.receive fs := rfl
  simp only [Workbench.augmented, Record.bare_foldl_cross, receive, hr, h.space]

theorem rested : (w.rested n pred).Alike (w'.rested n pred) := by
  simp only [Workbench.rested]
  obtain ⟨r', r, hr', hr, _⟩ | ⟨e, hr', hr⟩ := Attempt.alike_of_map_eq (h.node n)
  case inl =>
    simp only [hr, hr']
    exact {
      graph      := by rw [Hypergraph.bare_settle, Hypergraph.bare_settle, h.graph]
      space      := h.space
      structured := h.structured
      scratch    := by simp only [Augmenter.spent_size, h.scratch] }
  case inr =>
    simp only [hr, hr']
    exact h

end Workbench.Alike

namespace Course

-- Two courses of an apprentice that is being tested. It is the same apprentice at the same point.
structure Alike (c c' : Course Apprentice) : Prop where
  bench   : c.bench.Alike c'.bench
  pred    : c'.pred = c.pred
  mind    : c'.mind = c.mind
  testing : c.mind.training = false
  idle    : c.Idle
  idle'   : c'.Idle

variable {c c' : Course Apprentice}

namespace Alike

variable (h : c.Alike c')
include h

theorem view (n : Nat) : Record.bare <$> c'.view n = Record.bare <$> c.view n := by
  have hl : c'.neighborhood n = c.neighborhood n := by
    rw [neighborhood, h.pred, h.bench.lent, neighborhood]
  simp only [Course.view, h.mind]
  obtain ⟨r', r, hr', hr, hb⟩ | ⟨e, hr', hr⟩ := Attempt.alike_of_map_eq (h.bench.node n)
  case inr => simp only [hr, hr', Attempt.error_bind]
  case inl =>
    simp only [hr, hr', Attempt.ok_bind]
    split
    case isFalse => exact congrArg Except.ok hb
    case isTrue =>
      rw [hl]
      cases c.neighborhood n
      case error => rfl
      case ok fs => exact congrArg Except.ok (h.bench.augmented hb fs)

-- What is asked is the same up to what tells the true label.
theorem question (plan : Plan) (i n : Nat) :
    Query.blind <$> c'.question plan i n = Query.blind <$> c.question plan i n := by
  simp only [Course.question, h.bench.neighbors]
  obtain ⟨r', r, hr', hr, hb⟩ | ⟨e, hr', hr⟩ := Attempt.alike_of_map_eq (h.view n)
  case inr => rw [hr, hr']
  case inl =>
    simp only [hr, hr', Attempt.ok_bind]
    cases c.bench.graph.neighbors n
    case error => rfl
    case ok near => simp [queryFor, Query.blind, hb]

theorem rested (n : Nat) : (c.rested n).Alike (c'.rested n) where
  bench := by
    simp only [Course.rested]
    rw [h.mind]
    split
    case isTrue => exact h.pred ▸ h.bench.rested ..
    case isFalse => exact h.bench
  pred := by simp [h.pred]
  mind := by simp [h.mind]
  testing := by simp [h.testing]
  idle := rested_idle h.idle n
  idle' := rested_idle h.idle' n

-- The host answers alike as well.
theorem answer {q q' : Query} (hq : q'.blind = q.blind) :
    Decider.decide q' c'.mind = Decider.decide q c.mind := by
  rw [h.mind]
  exact Apprentice.decide_blind h.testing hq

theorem withMind {mind : Apprentice} (ht : mind.training = false) :
    Alike { c with mind } { c' with mind } where
  bench   := h.bench
  pred    := h.pred
  mind    := rfl
  testing := ht
  idle    := h.idle
  idle'   := h.idle'

theorem withPred (pred : Array Int) : Alike { c with pred } { c' with pred } where
  bench   := h.bench
  pred    := rfl
  mind    := h.mind
  testing := h.testing
  idle    := h.idle
  idle'   := h.idle'

end Alike

theorem alike_decideNode (labels : Nat) (plan : Plan) (i n : Nat) :
    Together Alike (decideNode labels plan i n) (decideNode labels plan i n) := by
  intro c c' h
  have hr := h.rested n
  simp only [outcome, decideNode_eq labels plan i n h.idle, decideNode_eq labels plan i n h.idle']
  obtain ⟨q', q, hc', hc, hb⟩ | ⟨e, hc', hc⟩ := Attempt.alike_of_map_eq (h.question plan i n)
  case inr =>
    rw [hc, hc']
    exact ⟨rfl, hr⟩
  case inl =>
    have testing : (outcome (Decider.decide q) c.mind).2.training = false :=
      (Apprentice.like_decide h.testing q).training.trans h.testing
    simp only [hc, hc', h.answer hb]
    cases hd : Decider.decide q c.mind <;> simp only [outcome, hd] at testing ⊢
    case error => exact ⟨trivial, hr.withMind testing⟩
    case ok label mind =>
      by_cases hl : 1 ≤ label ∧ label ≤ labels <;> simp only [hl, and_self, if_true, if_false]
      case pos => exact ⟨trivial, h.pred ▸ (hr.withMind testing).withPred _⟩
      case neg => exact ⟨trivial, hr.withMind testing⟩

theorem alike_follow (labels : Nat) (plan : Plan) (schedule : List (Nat × Nat)) :
    Together Alike (follow labels plan schedule) (follow labels plan schedule) :=
  Together.forM fun (i, n) _ => alike_decideNode labels plan i n

end Course

-- What there is to a decision without the true label: the question, what it resolves to in the memory
-- of the apprentice, and the answer.
structure Sight where
  pass     : Nat
  node     : Nat
  question : Except Fault Query
  resolved : Except Fault (List (String × Int))
  answer   : Except Fault Int

def Decision.sight (plan : Plan) (d : Decision Apprentice) : Sight where
  pass     := d.pass
  node     := d.node
  question := Query.blind <$> d.question plan
  resolved := (fun q => d.start.mind.resolve q.conditions) <$> d.question plan
  answer   := d.answer plan

namespace Course

theorem Alike.sight {c c' : Course Apprentice} (h : c.Alike c') (plan : Plan) (i n : Nat) :
    (Decision.mk i n c').sight plan = (Decision.mk i n c).sight plan := by
  simp only [Decision.sight, Decision.answer, Decision.question]
  obtain ⟨q', q, hc', hc, hb⟩ | ⟨e, hc', hc⟩ := Attempt.alike_of_map_eq (h.question plan i n)
  case inr =>
    rw [hc, hc']
    rfl
  case inl =>
    have conditions : q'.blind.conditions = q.blind.conditions := congrArg _ hb
    simp only [Query.blind] at conditions
    simp only [hc, hc', Attempt.map_ok, Attempt.ok_bind, hb, conditions, outcome]
    rw [h.answer hb, h.mind]

theorem sights_alike {labels : Nat} {plan : Plan} (schedule : List (Nat × Nat))
    {c c' : Course Apprentice} (h : c.Alike c') :
    (decisions labels plan schedule c').map (Decision.sight plan) =
      (decisions labels plan schedule c).map (Decision.sight plan) := by
  induction schedule generalizing c c'
  case nil => rfl
  case cons key schedule hi =>
    have ⟨i, n⟩ := key
    simp only [decisions, List.map_cons, h.sight]
    obtain ⟨_, _, _, hd, hd', hs⟩ | ⟨_, _, _, hd, hd', _⟩ := (alike_decideNode labels plan i n).ends h
    case inl => simp only [hd, hd', hi hs]
    case inr => simp only [hd, hd', List.map_nil]

end Course
end CollectiveLabeling
