import CollectiveLabeling.Proofs.Course.Memory
import CollectiveLabeling.Proofs.Neighborhood.Lent
import CollectiveLabeling.Proofs.Neighborhood.Restored

namespace CollectiveLabeling

open Step
open Augmenter (Found)

-- The learner that is asked in a pass, if it is not left open.
def Plan.learnerFor (plan : Plan) (i : Nat) : Option Int :=
  if plan.separateLearners then some (i : Int) else none

namespace Workbench

theorem plain_augmented (w : Workbench) (r : Record) (fs : List Feature) :
    (w.augmented r fs).plain = (r.plain.receive fs).plain := by
  rw [augmented, Record.plain_foldl_cross]
  rfl

end Workbench

namespace Course

variable {c c' w w' : Course Apprentice} {labels o q i j n : Nat} {plan plan' : Plan} {label : Int}

-- A course of an apprentice that is being tested, on the graph of an accepted episode.
structure Ready (labels : Nat) (c : Course Apprentice) : Prop where
  idle    : c.Idle
  sound   : c.bench.graph.Sound labels
  labeled : Hypergraph.Labeled labels c.bench.graph.nodes.size c.pred
  scratch : c.bench.augmenter.scratch.cells.size = labels + 1
  testing : c.mind.training = false

-- What a decision for a node changes, as far as it has a bearing on other decisions.
structure Moved (n : Nat) (label : Int) (c c' : Course Apprentice) : Prop where
  same   : c.bench.Same c'.bench
  plain  : c'.bench.graph.plain = c.bench.graph.plain
  pred   : c'.pred = c.pred.setIfInBounds n label
  memory : c'.mind.memory = c.mind.memory.insert (n + 1) label
  like   : c.mind.Like c'.mind

theorem plain_rested (c : Course Apprentice) (n : Nat) :
    (c.rested n).bench.graph.plain = c.bench.graph.plain := by
  simp only [rested]
  split
  case isFalse => rfl
  case isTrue => rw [Workbench.rested_graph, Hypergraph.plain_settle]

theorem Decided.moved (h : Decided labels plan i n c c' label) (testing : c.mind.training = false) :
    Moved n label c c' := by
  have memory := h.memory
  have same := h.same
  have ⟨query, mind, _, hd, hc⟩ := h.answer
  have answer : outcome (Apprentice.decide query) c.mind = (.ok label, mind) := outcome_ok.mpr hd
  have like : c.mind.Like mind := by
    have := Apprentice.like_decide testing query
    rwa [answer] at this
  subst hc
  exact ⟨same, c.plain_rested n, rfl, memory, like⟩

theorem Decided.decideNode_eq (h : Decided labels plan i n c c' label) (idle : c.Idle) :
    decideNode labels plan i n c = .ok ⟨⟩ c' := by
  have ⟨_, _, hq, hd, hc⟩ := h.answer
  rw [Course.decideNode_eq labels plan i n idle, hq]
  simp only [hd, h.one_le, h.le, and_self, if_true, hc]

theorem Moved.size (h : Moved n label c c') :
    c'.bench.graph.nodes.size = c.bench.graph.nodes.size :=
  Hypergraph.size_of_plain h.plain

theorem Ready.decided (h : c.Ready labels) (hd : Decided labels plan i n c c' label) :
    c'.Ready labels := by
  have moved := hd.moved h.testing
  have same := moved.same
  exact {
    idle    := hd.idle h.idle
    sound   := h.sound.of_costs same.costs same.edges same.adjacency
    labeled := by
      rw [moved.size, moved.pred]
      exact h.labeled.setIfInBounds n hd.one_le hd.le
    scratch := same.scratch.trans h.scratch
    testing := moved.like.training.trans h.testing }

-- A course on a part of a graph and another on the whole, which hold the same labels for the nodes of
-- the part.
structure Part (labels o q : Nat) (c w : Course Apprentice) : Prop where
  ready      : c.Ready labels
  ready'     : w.Ready labels
  graph      : c.bench.graph.Within o q w.bench.graph
  space      : w.bench.augmenter.space = c.bench.augmenter.space
  structured : w.bench.augmenter.useStructure = c.bench.augmenter.useStructure
  pred       : Found o c.bench.graph.nodes.size c.pred w.pred
  memory     : ∀ n < c.bench.graph.nodes.size,
    w.mind.memory[((n + o : Nat) : Int) + 1]? = c.mind.memory[(n : Int) + 1]?
  like       : c.mind.Like w.mind

namespace Part

variable (h : c.Part labels o q w)
include h

theorem resolve {near : List (Int × Int)}
    (hn : ∀ x ∈ near, 0 ≤ x.2 ∧ x.2 < c.bench.graph.nodes.size) :
    w.mind.resolve (conditionsOf (near.map (Prod.map (· + (q : Int)) (· + (o : Int))))) =
      c.mind.resolve (conditionsOf near) := by
  rw [Apprentice.resolve_conditionsOf, Apprentice.resolve_conditionsOf]
  induction near
  case nil => rfl
  case cons x near hi =>
    have ⟨nonneg, lt⟩ := hn x (by simp)
    obtain ⟨k, hk⟩ := Int.eq_ofNat_of_zero_le nonneg
    have memory := h.memory k (by omega)
    rw [Int.natCast_add, ← hk] at memory
    simp only [List.map_cons, List.filterMap_cons, Prod.map_snd, memory, hi fun x hx => hn x (by simp [hx])]

section Node

variable (hn : n < c.bench.graph.nodes.size)
include hn

theorem neighborhood : w.neighborhood (n + o) = c.neighborhood n :=
  Augmenter.lent_within h.graph h.ready.sound h.structured h.pred h.space hn
    (h.ready'.scratch.trans h.ready.scratch.symm)

theorem view : Record.plain <$> w.view (n + o) = Record.plain <$> c.view n := by
  have wantsInput : Decider.wantsInput w.mind = Decider.wantsInput c.mind := h.like.wantsInput
  simp only [Course.view, wantsInput, h.neighborhood hn]
  obtain ⟨r', r, hr', hr, hp⟩ | ⟨e, hr', hr⟩ := Attempt.alike_of_map_eq (h.graph.node hn)
  case inr => simp only [hr, hr', Attempt.error_bind]
  case inl =>
    simp only [hr, hr', Attempt.ok_bind]
    split
    case isFalse => exact congrArg Except.ok hp
    case isTrue =>
      cases c.neighborhood n
      case error => rfl
      case ok fs => simp only [Attempt.map_ok, Workbench.plain_augmented, hp]

-- An apprentice that is asked about a node of the part gives the same answer in the whole.
theorem guess {query : Query} (learner : plan'.learnerFor j = plan.learnerFor i)
    (hq : c.question plan i n = .ok query) : ∃ query', w.question plan' j (n + o) = .ok query' ∧
      w.mind.guess query' = c.mind.guess query := by
  have ⟨r, near, hr, hi, he⟩ := question_eq_ok.mp hq
  obtain ⟨r', r₁, hr', hr₁, hp⟩ | ⟨_, _, hf⟩ := Attempt.alike_of_map_eq (h.view hn)
  case inr => cases hf.symm.trans hr
  case inl =>
    cases hr₁.symm.trans hr
    have hi' := h.graph.neighbors h.ready.sound h.ready'.sound hn
    rw [hi] at hi'
    have ⟨_, incident⟩ := h.ready.sound.incident_ok hn
    have range := h.ready.sound.neighbors_range incident hi
    refine ⟨_, question_eq_ok.mpr ⟨r', _, hr', hi', rfl⟩, ?_⟩
    subst he
    refine h.like.guess learner ?_ (h.resolve range)
    have wantsInput : w.mind.wantsInput = c.mind.wantsInput := h.like.wantsInput
    simp only [Apprentice.material, wantsInput, queryFor]
    split
    case isFalse => rfl
    case isTrue => exact Record.visits_eq_of_plain hp

theorem decided (learner : plan'.learnerFor j = plan.learnerFor i)
    (hd : Decided labels plan i n c c' label) : ∃ w', Decided labels plan' j (n + o) w w' label := by
  have ⟨query, mind, hq, hm, _⟩ := hd.answer
  have ⟨query', hq', same⟩ := h.guess hn learner hq
  have answer : Apprentice.decide query c.mind = .ok label mind := hm
  rw [Apprentice.decide_eq_guess h.ready.testing] at answer
  cases hg : c.mind.guess query <;> simp only [hg] at answer <;> cases answer
  have answer' : Decider.decide query' w.mind = .ok label
      { w.mind with memory := w.mind.memory.insert query'.tag label } := by
    refine (Apprentice.decide_eq_guess h.ready'.testing query').trans ?_
    rw [same, hg]
  exact ⟨_, ⟨query', _, hq', answer', rfl⟩, hd.one_le, hd.le⟩

end Node

-- A decision that is taken in both keeps them together.
theorem both (hn : n < c.bench.graph.nodes.size) (hd : Decided labels plan i n c c' label)
    (hd' : Decided labels plan' j (n + o) w w' label) : c'.Part labels o q w' := by
  have moved := hd.moved h.ready.testing
  have moved' := hd'.moved h.ready'.testing
  have bound {m : Nat} (hm : m < c.bench.graph.nodes.size) : m + o < w.pred.size := by
    have held : c.pred[m]?.isSome := by simp [h.ready.labeled.size, hm]
    rw [← h.pred m hm] at held
    simpa using held
  exact {
    ready      := h.ready.decided hd
    ready'     := h.ready'.decided hd'
    graph      := h.graph.congr moved.plain moved'.plain
    space      := moved'.same.space.trans (h.space.trans moved.same.space.symm)
    structured := moved'.same.structured.trans (h.structured.trans moved.same.structured.symm)
    pred       := fun m hm => by
      rw [moved.size] at hm
      rw [moved.pred, moved'.pred, Array.getElem?_setIfInBounds, Array.getElem?_setIfInBounds,
        h.pred m hm]
      simp [bound hn, h.ready.labeled.size, hn]
    memory     := fun m hm => by
      rw [moved.size] at hm
      rw [moved.memory, moved'.memory, Std.TreeMap.getElem?_insert, Std.TreeMap.getElem?_insert,
        h.memory m hm]
      have same : compare ((n + o : Nat) + 1 : Int) ((m + o : Nat) + 1) = .eq ↔
          compare ((n : Int) + 1) (m + 1) = .eq := by
        rw [Std.LawfulEqCmp.compare_eq_iff_eq, Std.LawfulEqCmp.compare_eq_iff_eq]
        omega
      simp only [same]
    like       := (moved.like.symm.trans h.like).trans moved'.like }

-- A decision elsewhere in the whole is of no concern to a part.
theorem aside {m : Nat} (hm : m < o ∨ o + c.bench.graph.nodes.size ≤ m)
    (hd : Decided labels plan j m w w' label) : c.Part labels o q w' := by
  have moved := hd.moved h.ready'.testing
  exact {
    ready      := h.ready
    ready'     := h.ready'.decided hd
    graph      := h.graph.congr rfl moved.plain
    space      := moved.same.space.trans h.space
    structured := moved.same.structured.trans h.structured
    pred       := fun n hn => by
      rw [moved.pred, Array.getElem?_setIfInBounds_ne (by omega), h.pred n hn]
    memory     := fun n hn => by
      have ne : compare ((m : Int) + 1) ((n + o : Nat) + 1) ≠ .eq := fun he => by
        have := Std.LawfulEqCmp.eq_of_compare he
        omega
      rw [moved.memory, Std.TreeMap.getElem?_insert, if_neg ne, h.memory n hn]
    like       := h.like.trans moved.like }

end Part
end Course
end CollectiveLabeling
