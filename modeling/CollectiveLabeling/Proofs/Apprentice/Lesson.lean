import CollectiveLabeling.Proofs.Apprentice
import CollectiveLabeling.Proofs.Perceptron.Lesson

namespace CollectiveLabeling.Apprentice

open Step

variable {a a' : Apprentice} {q : Query} {label predicted : Int} {e : Fault}

theorem guess_eq_ok : a.guess q = .ok predicted ↔ a.knowsLearner (q.learner.getD 0) = true ∧
    ∃ input, a.inputFor q = .ok input ∧ a.predicted (q.learner.getD 0) input = .ok predicted := by
  simp only [guess]
  cases a.knowsLearner (q.learner.getD 0)
  case false => simp [Attempt.throw_eq]
  case true => simp [Attempt.bind_eq_ok]

-- What an apprentice gets to learn from a query that it answers in training: a lesson, if it would have
-- given another label than the true one.
def lesson? (a : Apprentice) (q : Query) : Option (Lesson Float32) :=
  match a.training, q.oracle, a.inputFor q, a.guess q with
  | true, some target, .ok input, .ok predicted =>
    if target = predicted then none else some ⟨input, target, predicted⟩
  | _, _, _, _ => none

-- A query is refused, or answered by the label the apprentice has found itself, or by the true one.
inductive Answering (a : Apprentice) (q : Query) : Prop
  | refused {e : Fault} : a.guess q = .error e → Answering a q
  | unaided {predicted : Int} : a.guess q = .ok predicted → a.training = false ∨ q.oracle = none →
      Answering a q
  | aided {input : List (Int × Float32)} {predicted target : Int} : a.guess q = .ok predicted →
      a.inputFor q = .ok input → a.training = true → q.oracle = some target → Answering a q

theorem answering (a : Apprentice) (q : Query) : a.Answering q := by
  cases hg : a.guess q
  case error => exact .refused hg
  case ok predicted =>
    cases training : a.training <;> cases oracle : q.oracle
    case true.some =>
      have ⟨_, _, hi, _⟩ := guess_eq_ok.mp hg
      exact .aided hg hi training oracle
    all_goals exact .unaided hg (by simp [training, oracle])

theorem decide_error (h : a.guess q = .error e) : decide q a = .error e a := by
  simp only [decide, guess, bind_apply, get_apply] at h ⊢
  cases hk : a.knowsLearner (q.learner.getD 0) <;> rw [hk] at h
  case false => cases h; rfl
  case true =>
    simp only [Bool.not_true, Bool.false_eq_true, if_false] at h ⊢
    cases hi : a.inputFor q <;> rw [hi] at h
    case error => cases h; rfl
    case ok input =>
      have hp : a.predicted (q.learner.getD 0) input = .error e := h
      simp [lift, hp]

-- Without a true label to go by, or without the wish to learn, an apprentice gives its own label.
theorem decide_unaided (h : a.guess q = .ok predicted) (unaided : a.training = false ∨ q.oracle = none) :
    decide q a = .ok predicted { a with memory := a.memory.insert q.tag predicted } := by
  have ⟨hk, input, hi, hp⟩ := guess_eq_ok.mp h
  cases training : a.training <;> cases oracle : q.oracle <;>
    simp [training, oracle] at unaided <;>
    simp [decide, hk, hi, hp, training, oracle, lift, remember]

section Aided

variable {input : List (Int × Float32)} {target : Int} (h : a.guess q = .ok predicted)
  (hi : a.inputFor q = .ok input) (training : a.training = true) (oracle : q.oracle = some target)
include h hi training oracle

theorem decide_aided : decide q a =
    match Perceptron.update (q.learner.getD 0) input target predicted a.policy with
    | .ok _ policy => .ok target { a with policy, memory := a.memory.insert q.tag target }
    | .error e policy => .error e { a with policy } := by
  have ⟨hk, input', hi', hp⟩ := guess_eq_ok.mp h
  cases hi.symm.trans hi'
  cases hu : Perceptron.update (q.learner.getD 0) input target predicted a.policy <;>
    simp [decide, hk, hi, hp, training, oracle, lift, remember, onPolicy, within, hu]

end Aided

-- In training the true label is the answer, whatever the apprentice would have said.
theorem label_of_oracle {target : Int} (training : a.training = true) (oracle : q.oracle = some target)
    (h : decide q a = .ok label a') : label = target := by
  cases a.answering q
  case refused hg => cases (decide_error hg).symm.trans h
  case unaided unaided => simp [training, oracle] at unaided
  case aided hg hi _ oracle' =>
    cases oracle.symm.trans oracle'
    rw [decide_aided hg hi training oracle] at h
    split at h <;> cases h
    rfl

-- Whether an apprentice learns is not changed by what it is asked.
theorem keeps_training (training : Bool) (q : Query) :
    Keeps (fun a : Apprentice => a.training = training) (decide q) := by
  intro a h
  simp only [outcome]
  cases a.answering q
  case refused hg => rwa [decide_error hg]
  case unaided hg unaided => rwa [decide_unaided hg unaided]
  case aided hg hi training oracle =>
    rw [decide_aided hg hi training oracle]
    cases Perceptron.update _ _ _ _ a.policy <;> exact h

end CollectiveLabeling.Apprentice
