import CollectiveLabeling.Proofs.Course.Fixed
import CollectiveLabeling.Proofs.Neighborhood.Aligned

namespace CollectiveLabeling

open Step

namespace Augmenter

variable {a : Augmenter} {g : Hypergraph} {pred : Array Int} {labels n : Nat}

section Lend

variable (sound : g.Sound labels) (labeled : Hypergraph.Labeled labels g.nodes.size pred)
  (scratch : a.scratch.cells.size = labels + 1) (movable : Movable a.space g.edges)
include sound labeled scratch movable

theorem lend_ok {e : Int} {es : List Int} (hi : g.incident n = .ok es) (he : e ∈ es) {t : Tally}
    (ht : t.cells.size = a.scratch.cells.size) : ∃ fs t', a.lend g pred n e t = .ok fs t' := by
  have tally := tally_ok sound hi labeled scratch he ht
  have ⟨r, hr, edge⟩ := sound.edge_ok hi he
  have ⟨fs, copies⟩ := copies_ok (a.histogram g pred n e) (movable r hr)
  refine ⟨fs, a.histogram g pred n e, ?_⟩
  simp only [lend, bind_apply, tally, get_apply, edge, lift_ok, copies]

-- A node can be augmented if the features of the edges can be moved.
theorem lent_ok (hn : n < g.nodes.size) : ∃ fs, a.lent g pred n = .ok fs := by
  have ⟨es, hi⟩ := sound.incident_ok hn
  have lends (es' : List Int) (hs : ∀ e ∈ es', e ∈ es) (t : Tally)
      (ht : t.cells.size = a.scratch.cells.size) :
      ∃ fs t', es'.mapM (a.lend g pred n) t = .ok fs t' := by
    induction es' generalizing t
    case nil => exact ⟨[], t, rfl⟩
    case cons e es' hi' =>
      have ⟨fs, t₁, hl⟩ := lend_ok sound labeled scratch movable hi (hs e (by simp)) ht
      have ⟨fss, t', hm⟩ := hi' (fun e he => hs e (by simp [he])) t₁ ((keeps_lend _).of_ok ht hl)
      exact ⟨fs :: fss, t', by simp only [List.mapM_cons, bind_apply, hl, hm, pure_apply]⟩
  have ⟨fss, t', hm⟩ := lends es (fun _ he => he) a.scratch rfl
  exact ⟨fss.flatten, by simp only [lent, gather, outcome, bind_apply, hi, lift_ok, hm, pure_apply]⟩

end Lend
end Augmenter

namespace Course

variable {c c' : Course Apprentice} {labels i n : Nat} {plan : Plan}

-- An apprentice that is up to a plan: it has a learner for every pass and no labels beyond those that
-- are asked for, and all features of edges can be moved.
structure Capable (labels : Nat) (plan : Plan) (c : Course Apprentice) : Prop where
  movable : Augmenter.Movable c.bench.augmenter.space c.bench.graph.edges
  known   : ∀ i < plan.passes, c.mind.knowsLearner ((plan.learnerFor i).getD 0) = true
  pos     : 1 ≤ c.mind.policy.labels
  le      : c.mind.policy.labels ≤ labels

theorem Capable.decided {label : Int} (h : c.Capable labels plan) (ready : c.Ready labels)
    (hd : Decided labels plan i n c c' label) : c'.Capable labels plan := by
  have moved := hd.moved ready.testing
  exact {
    movable := by
      rw [moved.same.space, moved.same.edges]
      exact h.movable
    known   := fun i hi => by
      rw [Apprentice.knowsLearner, moved.like.policy]
      exact h.known i hi
    pos     := moved.like.policy ▸ h.pos
    le      := moved.like.policy ▸ h.le }

-- There is something to be asked about every node if the features of the edges can be moved.
theorem question_ok (sound : c.bench.graph.Sound labels)
    (labeled : Hypergraph.Labeled labels c.bench.graph.nodes.size c.pred)
    (scratch : c.bench.augmenter.scratch.cells.size = labels + 1)
    (movable : Augmenter.Movable c.bench.augmenter.space c.bench.graph.edges)
    (hn : n < c.bench.graph.nodes.size) :
    ∃ r near, c.view n = .ok r ∧
      ∀ (plan : Plan) (i : Nat), c.question plan i n = .ok (queryFor plan i n r near) := by
  obtain ⟨near, hnear⟩ := sound.neighbors_ok hn
  obtain ⟨fs, hl⟩ := Augmenter.lent_ok sound labeled scratch movable hn
  have node : c.bench.graph.node n = .ok c.bench.graph.nodes[n] := Hypergraph.lookup_natCast hn
  obtain ⟨r, view⟩ : ∃ r, c.view n = .ok r := by
    simp only [Course.view, node, Attempt.ok_bind, neighborhood, hl]
    split <;> exact ⟨_, rfl⟩
  exact ⟨r, near, view, fun plan i => question_eq_ok.mpr ⟨r, near, view, hnear, rfl⟩⟩

-- Such an apprentice gets through every decision.
theorem decided_of_capable (ready : c.Ready labels) (h : c.Capable labels plan) (hi : i < plan.passes)
    (hn : n < c.bench.graph.nodes.size) :
    ∃ c' label, Decided labels plan i n c c' label := by
  have ⟨r, near, _, question⟩ := question_ok ready.sound ready.labeled ready.scratch h.movable hn
  obtain ⟨label, hg, one_le, le⟩ :=
    Apprentice.guess_ok (h.known i hi) h.pos (names_queryFor plan i n r near)
  have answer : Decider.decide (queryFor plan i n r near) c.mind = .ok label _ :=
    (Apprentice.decide_eq_guess ready.testing _).trans (by rw [hg])
  have bound := h.le
  exact ⟨_, label, ⟨_, _, question plan i, answer, rfl⟩, one_le, by omega⟩

theorem follow_of_capable (ready : c.Ready labels) (h : c.Capable labels plan)
    {schedule : List (Nat × Nat)}
    (hs : ∀ key ∈ schedule, key.1 < plan.passes ∧ key.2 < c.bench.graph.nodes.size) :
    ∃ c', follow labels plan schedule c = .ok ⟨⟩ c' := by
  induction schedule generalizing c
  case nil => exact ⟨c, rfl⟩
  case cons key schedule hi =>
    obtain ⟨i, n⟩ := key
    have ⟨hp, hn⟩ := hs (i, n) (by simp)
    have ⟨c₁, label, hd⟩ := decided_of_capable ready h hp hn
    have size := (hd.moved ready.testing).size
    have ⟨c', hf⟩ := hi (ready.decided hd) (h.decided ready hd) fun key hk =>
      size ▸ hs key (by simp [hk])
    exact ⟨c', by rw [follow_cons, hd.decideNode_eq ready.idle]; exact hf⟩

end Course
end CollectiveLabeling
