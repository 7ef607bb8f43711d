import CollectiveLabeling.Proofs.Apprentice.Lesson
import CollectiveLabeling.Proofs.Perceptron.Agree

namespace CollectiveLabeling

open Step

namespace Apprentice

variable {a : Apprentice} {q : Query} {l : Nat}

def withPolicy (a : Apprentice) (policy : Perceptron Float32) : Apprentice :=
  { a with policy }

-- What an apprentice answers. In training it fails if there is something to learn about a label that
-- its policy does not have.
def reply (a : Apprentice) (q : Query) : Except Fault Int := do
  let predicted ← a.guess q
  match a.training, q.oracle with
  | true, some target =>
    if target = predicted ∨ (Index.fin? a.policy.labels (target - 1)).isSome then .ok target
    else .error .outOfRange
  | _, _ => .ok predicted

-- What becomes of an apprentice when one of its learners has had to do with a query.
def answered (l : Nat) (q : Query) (a : Apprentice) : Apprentice :=
  { a with
    policy := a.policy.schooled fun i => if i = l then (a.lesson? q).toList else []
    memory := match a.reply q with
      | .ok label => a.memory.insert q.tag label
      | .error _ => a.memory }

theorem guess_range {label : Int} (h : a.guess q = .ok label) :
    1 ≤ label ∧ label ≤ a.policy.labels := by
  have ⟨_, _, _, hp⟩ := guess_eq_ok.mp h
  have ⟨scores, _, hb⟩ := Attempt.bind_eq_ok.mp hp
  have nonempty : scores.toList ≠ [] := by
    intro he
    simp [he, Perceptron.best, Attempt.throw_eq] at hb
  have ⟨place, best, lt⟩ := Perceptron.best_lt nonempty
  have size : scores.toList.length = a.policy.labels := scores.length_toList
  simp only [best, Attempt.pure_eq] at hb
  cases hb
  omega

-- A query that is addressed to a learner that an apprentice has.
structure Addressed (l : Nat) (a : Apprentice) (q : Query) : Prop where
  learner : q.learner.getD 0 = l
  known   : l < a.policy.learners.size
  names   : ∀ x ∈ q.conditions, x.2 = Course.conditionName

namespace Addressed

variable (h : Addressed l a q)
include h

theorem knowsLearner : a.knowsLearner (q.learner.getD 0) = true := by
  simp [Apprentice.knowsLearner, h.learner, h.known]

theorem guess_eq : a.guess q = a.inputFor q >>= a.predicted l := by
  simp only [guess, h.learner, h.learner ▸ h.knowsLearner, Bool.not_true, Bool.false_eq_true, if_false]

-- Only a policy without labels has no answer of its own.
theorem guess_error {e : Fault} (hg : a.guess q = .error e) : e = .outOfRange := by
  have ⟨input, hi, rows⟩ := inputFor_ok (a := a) h.names
  have ⟨scores, hs⟩ := Perceptron.scores_ok (Int.natCast_nonneg l) (Int.ofNat_lt.mpr h.known) rows
  simp only [h.guess_eq, hi, predicted, hs, Attempt.ok_bind] at hg
  cases hb : Perceptron.best scores.toList <;> simp only [hb] at hg <;> cases hg
  rfl

theorem reply_error {e : Fault} (hr : a.reply q = .error e) : e = .outOfRange := by
  obtain hg | ⟨_, _, hr⟩ := Attempt.bind_eq_error.mp hr
  case inl => exact h.guess_error hg
  case inr =>
    split at hr
    case h_2 => cases hr
    case h_1 =>
      split at hr <;> cases hr
      rfl

-- Whatever comes of a query, no other learner has a part in it.
theorem outcome_decide : outcome (decide q) a = (a.reply q, a.answered l q) := by
  have same : a.policy.learners.modify l (fun x => x) = a.policy.learners := Array.modify_id ..
  rw [answered, Perceptron.schooled_single]
  cases a.answering q
  case refused hg =>
    have none : a.lesson? q = none := by simp only [lesson?, hg]; split <;> simp_all
    rw [outcome_error.mpr (decide_error hg)]
    simp only [reply, hg, none, Attempt.error_bind, Option.toList_none, List.foldl_nil, same]
  case unaided predicted hg unaided =>
    have none : a.lesson? q = none := by simp only [lesson?]; split <;> simp_all
    have reply : a.reply q = .ok predicted := by
      simp only [Apprentice.reply, hg, Attempt.ok_bind]
      split <;> simp_all
    rw [outcome_ok.mpr (decide_unaided hg unaided)]
    simp only [reply, none, Option.toList_none, List.foldl_nil, same]
  case aided input predicted target hg hi training oracle =>
    have taught : (fun x : Learner Float32 a.policy.labels =>
        (a.lesson? q).toList.foldl (Learner.taught a.policy.rate) x) =
        (Learner.taught a.policy.rate · ⟨input, target, predicted⟩) := by
      funext x
      simp only [lesson?, training, oracle, hi, hg]
      by_cases right : target = predicted <;> simp [right, Learner.taught]
    obtain ⟨_, found⟩ := Perceptron.fin?_pred (guess_range hg)
    obtain ⟨_, hi', rows⟩ := inputFor_ok (a := a) h.names
    cases hi.symm.trans hi'
    have known : l < a.policy.learners.size := h.known
    have rows : ∀ x ∈ (Lesson.mk input target predicted).input, 0 ≤ x.1 ∧ x.1 < a.policy.space.rows := rows
    have updated := Perceptron.outcome_update known rows found
    rw [taught]
    simp only [outcome, decide_aided hg hi training oracle, h.learner, reply, hg, training, oracle,
      Attempt.ok_bind] at updated ⊢
    cases hu : Perceptron.update l input target predicted a.policy <;> simp only [hu] at updated ⊢
    all_goals
      obtain ⟨result, policy⟩ := Prod.mk.inj updated
      split at result <;> cases result
      rw [policy]
      simp [*]

section Agree

variable {I : Nat → Prop} {policy : Perceptron Float32} (agree : a.policy.AgreeOn I policy)
include agree

theorem withPolicy : Addressed l (a.withPolicy policy) q where
  learner := h.learner
  known   := by
    change l < policy.learners.size
    exact agree.size ▸ h.known
  names   := h.names

variable (hl : I l)
include hl

theorem guess_withPolicy : (a.withPolicy policy).guess q = a.guess q := by
  have predicted (a : Apprentice) (input : List (Int × Float32)) : a.predicted l input =
      (Vector.toList <$> a.policy.scores l input) >>= fun xs =>
        (Perceptron.best xs).elim (.error .outOfRange) fun place => .ok ((place : Int) + 1) := by
    simp only [Apprentice.predicted]
    cases a.policy.scores l input
    case error => rfl
    case ok scores =>
      simp only [Attempt.ok_bind, Attempt.map_ok]
      cases Perceptron.best scores.toList <;> rfl
  have same : (a.withPolicy policy).predicted l = a.predicted l := by
    funext input
    have scores : Vector.toList <$> (a.withPolicy policy).policy.scores l input =
        Vector.toList <$> a.policy.scores l input := agree.scores hl h.known input
    rw [predicted, predicted, scores]
  rw [(h.withPolicy agree).guess_eq, h.guess_eq, same]
  obtain ⟨_, rfl, _⟩ := agree
  rfl

theorem reply_withPolicy : (a.withPolicy policy).reply q = a.reply q := by
  have guess := h.guess_withPolicy agree hl
  obtain ⟨_, rfl, _⟩ := agree
  unfold reply
  rw [guess]
  rfl

theorem lesson?_withPolicy : (a.withPolicy policy).lesson? q = a.lesson? q := by
  have guess := h.guess_withPolicy agree hl
  obtain ⟨_, rfl, _⟩ := agree
  unfold lesson?
  rw [guess]
  rfl

theorem answered_withPolicy : (a.withPolicy policy).answered l q = (a.answered l q).withPolicy
    (policy.schooled fun i => if i = l then (a.lesson? q).toList else []) := by
  simp only [answered, h.reply_withPolicy agree hl, h.lesson?_withPolicy agree hl]
  rfl

end Agree

end Addressed

end Apprentice
end CollectiveLabeling
