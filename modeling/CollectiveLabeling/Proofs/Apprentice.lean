import CollectiveLabeling.Apprentice
import CollectiveLabeling.Proofs.Perceptron

namespace CollectiveLabeling

open Step

-- A record without its costs. Of a node, these are all there is to tell its true label.
def Record.bare (r : Record) : Record :=
  { r with costs := [] }

-- What is left of a query when nothing in it tells the true label.
def Query.blind (q : Query) : Query :=
  { q with input := q.input.map Record.bare, oracle := none }

namespace Perceptron

-- What is kept whenever a learner is changed, learning keeps.
section Keeps

variable {I : Perceptron Float32 → Prop} (hI : ∀ p i f, I p → I (p.modifyLearner i f))
include hI

theorem keeps_shiftWeight (learner place : Int) (delta : Float32) (row : Int) :
    Keeps I (shiftWeight learner place delta row) := by
  intro p h
  simp only [outcome, shiftWeight, bind_apply, get_apply]
  cases p.learnerAt learner <;> try exact h
  cases p.rowAt row <;> try exact h
  cases p.labelAt place <;> try exact h
  exact hI _ _ _ h

theorem keeps_raiseBias (learner place : Int) : Keeps I (raiseBias learner place) := by
  intro p h
  simp only [outcome, raiseBias, bind_apply, get_apply]
  cases p.learnerAt learner <;> try exact h
  cases p.labelAt place <;> try exact h
  exact hI _ _ _ h

theorem keeps_lowerBias (learner place : Int) : Keeps I (lowerBias learner place) := by
  intro p h
  simp only [outcome, lowerBias, bind_apply, get_apply]
  cases p.learnerAt learner <;> try exact h
  cases p.labelAt place <;> try exact h
  exact hI _ _ _ h

theorem keeps_update (learner : Int) (input : List (Int × Float32)) (target predicted : Int) :
    Keeps I (update learner input target predicted) := by
  by_cases h : target = predicted
  case pos =>
    simp only [update, h, if_true]
    exact Keeps.pure _
  case neg =>
    simp only [update, h, if_false]
    refine Keeps.bind (fun _ h => h) fun p => ?_
    refine (Keeps.forM fun x _ => keeps_shiftWeight hI _ _ _ _).bind fun _ => ?_
    refine (Keeps.forM fun x _ => keeps_shiftWeight hI _ _ _ _).bind fun _ => ?_
    exact (keeps_raiseBias hI _ _).bind fun _ => keeps_lowerBias hI _ _

end Keeps

-- Learning leaves the layout of the buckets alone.
def In (space : FeatureSpace) (p : Perceptron Float32) : Prop :=
  p.space = space

theorem resize_space (p : Perceptron Float32) (count : Int) : (p.resize count).space = p.space := by
  simp only [resize]
  split <;> rfl

end Perceptron

namespace Apprentice

variable {a : Apprentice} {q q' : Query}

-- The label an apprentice would give by itself.
def guess (a : Apprentice) (q : Query) : Except Fault Int := do
  let learner := q.learner.getD 0
  if !a.knowsLearner learner then
    throw (Fault.raised (.invalid (.learner learner a.policy.learners.size)))
  let input ← a.inputFor q
  a.predicted learner input

theorem inputFor_of_resolve (names : ∀ x ∈ a.resolve q.conditions, x.1.length = 1) :
    ∃ input, a.inputFor q = .ok input ∧ ∀ x ∈ input, 0 ≤ x.1 ∧ x.1 < a.policy.space.rows := by
  refine Attempt.exists_bind_eq_ok (Perceptron.featurize_ok _ (a.material q) names)
    fun input rows => ⟨_, rfl, fun x hx => ?_⟩
  obtain ⟨y, hy, rfl⟩ := List.mem_map.mp hx
  exact ⟨Int.natCast_nonneg _, Int.ofNat_lt.mpr (rows y hy)⟩

theorem length_of_resolve (names : ∀ x ∈ q.conditions, x.2 = Course.conditionName) :
    ∀ x ∈ a.resolve q.conditions, x.1.length = 1 := by
  intro x hx
  obtain ⟨y, hy, he⟩ := List.mem_filterMap.mp hx
  obtain ⟨_, _, rfl⟩ := Option.map_eq_some_iff.mp he
  exact congrArg String.length (names y hy)

theorem inputFor_ok (names : ∀ x ∈ q.conditions, x.2 = Course.conditionName) :
    ∃ input, a.inputFor q = .ok input ∧ ∀ x ∈ input, 0 ≤ x.1 ∧ x.1 < a.policy.space.rows :=
  inputFor_of_resolve (length_of_resolve names)

theorem predicted_ok {learner : Int} (known : a.knowsLearner learner = true)
    (pos : 1 ≤ a.policy.labels) {input : List (Int × Float32)}
    (rows : ∀ x ∈ input, 0 ≤ x.1 ∧ x.1 < a.policy.space.rows) :
    ∃ label, a.predicted learner input = .ok label ∧ 1 ≤ label ∧ label ≤ a.policy.labels := by
  obtain ⟨nonneg, lt⟩ : 0 ≤ learner ∧ learner < a.policy.learners.size := by
    simpa [knowsLearner] using known
  obtain ⟨scores, hs⟩ := Perceptron.scores_ok nonneg lt rows
  have size : scores.toList.length = a.policy.labels := scores.length_toList
  have some : scores.toList ≠ [] := List.ne_nil_of_length_pos (by omega)
  obtain ⟨place, hb, lt⟩ := Perceptron.best_lt some
  refine ⟨(place : Int) + 1, ?_, by omega, by omega⟩
  simp only [predicted, hs, hb, Attempt.ok_bind, Attempt.pure_eq]

-- An apprentice that knows the learner and has any labels at all has an answer.
theorem guess_of_resolve (known : a.knowsLearner (q.learner.getD 0) = true) (pos : 1 ≤ a.policy.labels)
    (names : ∀ x ∈ a.resolve q.conditions, x.1.length = 1) :
    ∃ label, a.guess q = .ok label ∧ 1 ≤ label ∧ label ≤ a.policy.labels := by
  simp only [guess, known]
  exact Attempt.exists_bind_eq_ok (inputFor_of_resolve names) fun _ => predicted_ok known pos

theorem guess_ok (known : a.knowsLearner (q.learner.getD 0) = true) (pos : 1 ≤ a.policy.labels)
    (names : ∀ x ∈ q.conditions, x.2 = Course.conditionName) :
    ∃ label, a.guess q = .ok label ∧ 1 ≤ label ∧ label ≤ a.policy.labels :=
  guess_of_resolve known pos (length_of_resolve names)

-- An apprentice that is being tested gives the label it would give by itself. It learns nothing and
-- only remembers what it has said.
theorem decide_eq_guess (h : a.training = false) (q : Query) : decide q a = match a.guess q with
    | .ok label => .ok label { a with memory := a.memory.insert q.tag label }
    | .error e => .error e a := by
  simp only [decide, guess, bind_apply, get_apply]
  cases a.knowsLearner (q.learner.getD 0)
  case false => rfl
  case true =>
    simp only [Bool.not_true, Bool.false_eq_true, if_false]
    cases a.inputFor q
    case error => rfl
    case ok input =>
      cases hp : a.predicted (q.learner.getD 0) input
      case error => simp [lift, hp]
      case ok label => simp [lift, hp, h, remember]

theorem material_blind (a : Apprentice) (q : Query) :
    (a.material q.blind).visits = (a.material q).visits := by
  simp only [material]
  split
  case isFalse => rfl
  case isTrue => cases hi : q.input <;> simp only [Query.blind, hi] <;> rfl

-- The true label has no part in it.
theorem guess_blind (a : Apprentice) (q : Query) : a.guess q.blind = a.guess q := by
  have input : a.inputFor q.blind = a.inputFor q := by
    simp only [inputFor, Perceptron.featurize, material_blind]
    rfl
  simp only [guess, input]
  rfl

theorem decide_blind (ha : a.training = false) (h : q.blind = q'.blind) :
    decide q a = decide q' a := by
  have tag : q.blind.tag = q'.blind.tag := congrArg _ h
  rw [decide_eq_guess ha, decide_eq_guess ha, ← a.guess_blind q, h, a.guess_blind]
  simp only [Query.blind] at tag
  rw [tag]

-- What an apprentice is, but for its memory.
structure Like (a b : Apprentice) : Prop where
  policy     : b.policy = a.policy
  training   : b.training = a.training
  wantsInput : b.wantsInput = a.wantsInput

theorem Like.refl (a : Apprentice) : a.Like a :=
  ⟨rfl, rfl, rfl⟩

theorem Like.symm {b : Apprentice} (h : a.Like b) : b.Like a :=
  ⟨h.policy.symm, h.training.symm, h.wantsInput.symm⟩

theorem Like.trans {b c : Apprentice} (h : a.Like b) (h' : b.Like c) : a.Like c where
  policy     := h'.policy.trans h.policy
  training   := h'.training.trans h.training
  wantsInput := h'.wantsInput.trans h.wantsInput

-- Two apprentices that are like each other answer alike if they see and recall the same.
theorem Like.guess {b : Apprentice} (h : a.Like b) (learner : q'.learner = q.learner)
    (visits : (b.material q').visits = (a.material q).visits)
    (resolved : b.resolve q'.conditions = a.resolve q.conditions) : b.guess q' = a.guess q := by
  have input : b.inputFor q' = a.inputFor q := by
    simp only [inputFor, Perceptron.featurize, h.policy, visits, resolved]
  unfold Apprentice.guess
  rw [learner, input]
  unfold knowsLearner predicted
  rw [h.policy]

theorem like_decide (h : a.training = false) (q : Query) : a.Like (outcome (decide q) a).2 := by
  simp only [outcome, decide_eq_guess h]
  cases a.guess q <;> exact ⟨rfl, rfl, rfl⟩

theorem keeps_like (h : a.training = false) (q : Query) : Keeps a.Like (decide q) := by
  intro b hb
  exact hb.trans (like_decide (hb.training.trans h) q)

section Keeps

variable {I : Perceptron Float32 → Prop}

theorem keeps_onPolicy {x : Step (Perceptron Float32) Unit} (h : Keeps I x) :
    Keeps (fun a => I a.policy) (onPolicy x) :=
  Keeps.within (fun _ _ => rfl) h

theorem keeps_remember (tag label : Int) : Keeps (fun a => I a.policy) (remember tag label) :=
  Keeps.modify fun _ h => h

theorem keeps_policy_decide (hI : ∀ p i f, I p → I (p.modifyLearner i f)) (q : Query) :
    Keeps (fun a => I a.policy) (decide q) := by
  unfold decide
  refine Keeps.bind (fun _ h => h) fun a => ?_
  dsimp only
  split
  case isTrue => exact fun _ h => h
  case isFalse =>
    refine (Keeps.lift _).bind fun input => (Keeps.lift _).bind fun predicted => ?_
    split
    case h_1 oracle _ _ =>
      refine (keeps_onPolicy (Perceptron.keeps_update hI _ _ _ _)).bind fun _ => ?_
      exact (Keeps.pure _).bind fun _ => (keeps_remember _ _).bind fun _ => Keeps.pure _
    case h_2 => exact (Keeps.pure _).bind fun _ => (keeps_remember _ _).bind fun _ => Keeps.pure _

end Keeps

-- Whatever an apprentice learns, it stays in its space of features.
def In (space : FeatureSpace) (a : Apprentice) : Prop :=
  a.policy.In space

theorem keeps_decide {space : FeatureSpace} (q : Query) : Keeps (In space) (decide q) :=
  keeps_policy_decide (I := Perceptron.In space) (fun _ _ _ h => h) q

-- It has as many learners as before.
theorem keeps_size (size : Nat) (q : Query) :
    Keeps (fun a : Apprentice => a.policy.learners.size = size) (decide q) :=
  keeps_policy_decide (I := fun p => p.learners.size = size)
    (fun p i f h => by rwa [Perceptron.modifyLearner, Array.size_modify]) q

end Apprentice
end CollectiveLabeling
