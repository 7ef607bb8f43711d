import CollectiveLabeling.Proofs.Apprentice.Agree
import CollectiveLabeling.Proofs.Course.Progress

namespace CollectiveLabeling

open Step

theorem Record.label_congr {r r' : Record} (h : r.costs = r'.costs) : r.label = r'.label := by
  simp only [label, h]

theorem Workbench.costs_augmented (w : Workbench) (r : Record) (fs : List Feature) :
    (w.augmented r fs).costs = r.costs :=
  have ⟨_, received⟩ := r.remains_receive fs
  (received.foldl_cross w.augmenter.space.neighborPairs).costs

namespace Course

-- The true label of a node can be seen, whatever its neighbors lend it.
theorem view_costs {σ : Type} [Decider σ] {c : Course σ} {n : Nat} {r : Record} (h : c.view n = .ok r) :
    ∃ r', c.bench.graph.node n = .ok r' ∧ r.costs = r'.costs := by
  have ⟨r', node, h⟩ := Attempt.bind_eq_ok.mp h
  refine ⟨r', node, ?_⟩
  split at h
  case isFalse => cases h; rfl
  case isTrue =>
    cases hl : c.neighborhood n <;> rw [hl] at h <;> cases h
    exact c.bench.costs_augmented r' _

end Course

namespace Apprentice

variable {a : Apprentice} {q : Query} {l : Nat}

-- An apprentice that has all labels has an answer, whether it learns or not.
theorem Addressed.reply_ok (h : Addressed l a q) (pos : 1 ≤ a.policy.labels)
    (oracle : ∀ target, q.oracle = some target → 1 ≤ target ∧ target ≤ a.policy.labels) :
    ∃ label, a.reply q = .ok label ∧ 1 ≤ label ∧ label ≤ a.policy.labels := by
  obtain ⟨predicted, hg, range⟩ := guess_ok h.knowsLearner pos h.names
  simp only [reply, hg, Attempt.ok_bind]
  split
  case h_2 => exact ⟨predicted, rfl, range⟩
  case h_1 target _ hq =>
    obtain ⟨_, found⟩ := Perceptron.fin?_pred (oracle target hq)
    exact ⟨target, by simp [found], oracle target hq⟩

end Apprentice

namespace Course

variable {c c' : Course Apprentice} {labels i n : Nat} {plan : Plan}

-- An apprentice that has exactly the labels that are asked for, at work on the graph of an accepted
-- episode. It may learn or be tested.
structure Versed (labels : Nat) (plan : Plan) (c : Course Apprentice) : Prop extends
    Capable labels plan c where
  idle    : c.Idle
  sound   : c.bench.graph.Sound labels
  labeled : Hypergraph.Labeled labels c.bench.graph.nodes.size c.pred
  scratch : c.bench.augmenter.scratch.cells.size = labels + 1
  ge      : labels ≤ c.mind.policy.labels

theorem Versed.addressed (h : c.Versed labels plan) (hi : i < plan.passes) (r : Record)
    (near : List (Int × Int)) :
    ∃ l, Apprentice.Addressed l c.mind (queryFor plan i n r near) := by
  obtain ⟨nonneg, lt⟩ : 0 ≤ (plan.learnerFor i).getD 0 ∧
      (plan.learnerFor i).getD 0 < c.mind.policy.learners.size := by
    simpa [Apprentice.knowsLearner] using h.known i hi
  obtain ⟨l, hl⟩ := Int.eq_ofNat_of_zero_le nonneg
  exact ⟨l, hl, by omega, names_queryFor plan i n r near⟩

theorem Versed.decided (h : c.Versed labels plan) (hi : i < plan.passes)
    (hn : n < c.bench.graph.nodes.size) :
    ∃ c' label, Decided labels plan i n c c' label ∧ c'.Versed labels plan := by
  obtain ⟨r, near, view, question⟩ := question_ok h.sound h.labeled h.scratch h.movable hn
  obtain ⟨l, addressed⟩ := h.addressed (n := n) hi r near
  have oracle : ∀ target, (queryFor plan i n r near).oracle = some target →
      1 ≤ target ∧ target ≤ c.mind.policy.labels := by
    intro target ht
    obtain ⟨r', node, costs⟩ := view_costs view
    obtain ⟨_, _, hr⟩ := Hypergraph.lookup_eq_ok.mp node
    obtain ⟨_, le⟩ := h.sound.label r' (Array.mem_of_getElem? hr)
    have bound := h.ge
    rw [← Record.label_congr costs] at le
    simp only [queryFor] at ht
    split at ht <;> cases ht
    omega
  obtain ⟨label, reply, one_le, le⟩ := addressed.reply_ok h.pos oracle
  have bound := h.le
  have decided : outcome (Decider.decide (queryFor plan i n r near)) c.mind = _ := addressed.outcome_decide
  rw [reply] at decided
  have hd : Decided labels plan i n c _ label :=
    ⟨⟨_, _, question plan i, outcome_ok.mp decided, rfl⟩, one_le, by omega⟩
  have same := hd.same
  refine ⟨_, label, hd, ?_⟩
  exact {
    movable := by
      rw [same.space, same.edges]
      exact h.movable
    known   := fun i hi => by
      simpa only [Apprentice.knowsLearner, Apprentice.answered, Perceptron.schooled_size] using h.known i hi
    pos     := h.pos
    le      := h.le
    idle    := hd.idle h.idle
    sound   := h.sound.of_costs same.costs same.edges same.adjacency
    labeled := same.size ▸ h.labeled.setIfInBounds n one_le (by omega)
    scratch := same.scratch.trans h.scratch
    ge      := h.ge }

theorem follow_of_versed (h : c.Versed labels plan) {schedule : List (Nat × Nat)}
    (hs : ∀ key ∈ schedule, key.1 < plan.passes ∧ key.2 < c.bench.graph.nodes.size) :
    ∃ c', follow labels plan schedule c = .ok ⟨⟩ c' := by
  induction schedule generalizing c
  case nil => exact ⟨c, rfl⟩
  case cons key schedule hi =>
    obtain ⟨i, n⟩ := key
    have ⟨hp, hn⟩ := hs (i, n) (by simp)
    have ⟨c₁, label, hd, versed⟩ := h.decided hp hn
    have ⟨c', hf⟩ := hi versed fun key hk => hd.same.size ▸ hs key (by simp [hk])
    exact ⟨c', by rw [follow_cons, hd.decideNode_eq h.idle]; exact hf⟩

end Course
end CollectiveLabeling
