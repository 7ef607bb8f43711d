import CollectiveLabeling.Proofs.Apprentice.Agree
import CollectiveLabeling.Proofs.Fault

namespace CollectiveLabeling.Apprentice

open Step

variable {a a' : Apprentice} {q : Query} {input : List (Int × Float32)} {label predicted target : Int}
  {e : Fault}

-- The learner that a query is addressed to is there.
def Reaches (a : Apprentice) (q : Query) : Prop :=
  0 ≤ q.learner.getD 0 ∧ q.learner.getD 0 < a.policy.learners.size

-- The conditions that are remembered have names of a single character.
def Legible (a : Apprentice) (q : Query) : Prop :=
  ∀ x ∈ a.resolve q.conditions, x.1.length = 1

-- What a query is refused for. The learner is looked at first, then the names, and then the true label,
-- which may be counted from the end.
inductive Refuses (a : Apprentice) (q : Query) : Fault → Prop
  | learner : ¬a.Reaches q →
      Refuses a q (Fault.raised (.invalid (.learner (q.learner.getD 0) a.policy.learners.size)))
  | name : a.Reaches q → ¬a.Legible q → Refuses a q .notOneCharacter
  | oracle {target : Int} : a.Reaches q → a.Legible q → a.training = true → q.oracle = some target →
      target ≤ -a.policy.labels ∨ a.policy.labels < target → Refuses a q .outOfRange

-- What an answer changes: the label that is remembered for the query's tag, and the learner that the
-- query is addressed to.
structure Confined (a : Apprentice) (q : Query) (label : Int) (a' : Apprentice) : Prop where
  training   : a'.training = a.training
  wantsInput : a'.wantsInput = a.wantsInput
  remembered : a'.memory[q.tag]? = some label
  memory     : ∀ tag, tag ≠ q.tag → a'.memory[tag]? = a.memory[tag]?
  policy     : a.policy.AgreeOn (fun i => (i : Int) ≠ q.learner.getD 0) a'.policy

theorem knowsLearner_iff : a.knowsLearner (q.learner.getD 0) = true ↔ a.Reaches q := by
  simp [knowsLearner, Reaches]

theorem guess_of_unreached (h : ¬a.Reaches q) :
    a.guess q = .error (Fault.raised (.invalid (.learner (q.learner.getD 0) a.policy.learners.size))) := by
  have unknown : a.knowsLearner (q.learner.getD 0) = false := by
    rwa [← knowsLearner_iff, Bool.not_eq_true] at h
  simp only [guess, unknown]
  rfl

theorem guess_of_illegible (reached : a.Reaches q) (h : ¬a.Legible q) :
    a.guess q = .error .notOneCharacter := by
  have name : ∃ x ∈ a.resolve q.conditions, x.1.length ≠ 1 := by simpa [Legible] using h
  have input : a.inputFor q = .error .notOneCharacter := by
    simp only [inputFor, Perceptron.featurize_error _ _ name, Attempt.error_bind]
  simp only [guess, knowsLearner_iff.mpr reached, input]
  rfl

-- A query that reaches a learner and can be read is refused for nothing else but the true label.
theorem guess_error_iff (pos : 1 ≤ a.policy.labels) : a.guess q = .error e ↔
    (¬a.Reaches q ∧ e = Fault.raised (.invalid (.learner (q.learner.getD 0) a.policy.learners.size))) ∨
      (a.Reaches q ∧ ¬a.Legible q ∧ e = .notOneCharacter) := by
  by_cases reached : a.Reaches q
  case neg => simp [guess_of_unreached reached, reached, eq_comm]
  case pos =>
    by_cases legible : a.Legible q
    case neg => simp [guess_of_illegible reached legible, reached, legible, eq_comm]
    case pos =>
      have ⟨_, found, _⟩ := guess_of_resolve (knowsLearner_iff.mpr reached) pos legible
      simp [found, reached, legible]

theorem sensible_of_guess (h : a.guess q = .ok predicted) : a.Reaches q ∧ a.Legible q := by
  have reached : a.Reaches q := knowsLearner_iff.mp (guess_eq_ok.mp h).left
  refine ⟨reached, Classical.byContradiction fun illegible => ?_⟩
  cases (guess_of_illegible reached illegible).symm.trans h

theorem fin?_eq_none_iff {labels : Nat} :
    Index.fin? labels (target - 1) = none ↔ target ≤ -labels ∨ labels < target := by
  rw [Index.fin?_eq_none_iff]
  omega

-- The step that is taken toward the true label. It needs a label that there is, and changes the learner
-- that is addressed and no other.
inductive Taught (a : Apprentice) (q : Query) (input : List (Int × Float32)) (target predicted : Int) :
    Prop
  | done {policy : Perceptron Float32} : ¬(target ≤ -a.policy.labels ∨ a.policy.labels < target) →
      Perceptron.update (q.learner.getD 0) input target predicted a.policy = .ok ⟨⟩ policy →
      a.policy.AgreeOn (fun i => (i : Int) ≠ q.learner.getD 0) policy → Taught a q input target predicted
  | failed : target ≤ -a.policy.labels ∨ a.policy.labels < target →
      Perceptron.update (q.learner.getD 0) input target predicted a.policy =
        .error .outOfRange a.policy → Taught a q input target predicted

theorem taught (hg : a.guess q = .ok predicted) (hi : a.inputFor q = .ok input) (target : Int) :
    a.Taught q input target predicted := by
  have ⟨⟨nonneg, lt⟩, legible⟩ := sensible_of_guess hg
  have ⟨l, hl⟩ := Int.eq_ofNat_of_zero_le nonneg
  have known : l < a.policy.learners.size := Int.ofNat_lt.mp (hl ▸ lt)
  have ⟨_, hi', inside⟩ := inputFor_of_resolve legible
  cases hi.symm.trans hi'
  have rows : ∀ x ∈ (Lesson.mk input target predicted).input,
      0 ≤ x.1 ∧ x.1 < a.policy.space.rows := inside
  have ⟨_, predicted_found⟩ := Perceptron.fin?_pred (guess_range hg)
  cases target_found : Index.fin? a.policy.labels (target - 1)
  case none =>
    have wrong : target ≠ predicted := by
      rintro rfl
      cases target_found.symm.trans predicted_found
    refine .failed (fin?_eq_none_iff.mp target_found) (hl ▸ ?_)
    exact Perceptron.update_error known rows wrong target_found
  case some place =>
    have inside : ¬(target ≤ -a.policy.labels ∨ a.policy.labels < target) := by
      rw [← fin?_eq_none_iff, target_found]
      exact Option.some_ne_none _
    have updated := Perceptron.update_ok known rows target_found predicted_found
    refine .done inside (hl ▸ updated) ⟨_, rfl, Array.size_modify, fun i ne => ?_⟩
    have other : l ≠ i := by omega
    rw [Array.getElem?_modify, if_neg other]

theorem confined_of_policy {policy : Perceptron Float32}
    (h : a.policy.AgreeOn (fun i => (i : Int) ≠ q.learner.getD 0) policy) (label : Int) :
    a.Confined q label { a with policy, memory := a.memory.insert q.tag label } where
  training   := rfl
  wantsInput := rfl
  remembered := by simp
  memory     := fun tag ne => by simp [Std.TreeMap.getElem?_insert, Ne.symm ne]
  policy     := h

theorem refuses_iff_of_error (pos : 1 ≤ a.policy.labels) (hg : a.guess q = .error e) {e' : Fault} :
    a.Refuses q e' ↔ e' = e := by
  obtain ⟨unreached, rfl⟩ | ⟨reached, illegible, rfl⟩ := (guess_error_iff pos).mp hg
  case inl =>
    refine ⟨fun h => ?_, fun h => h ▸ .learner unreached⟩
    cases h
    case learner => rfl
    all_goals contradiction
  case inr =>
    refine ⟨fun h => ?_, fun h => h ▸ .name reached illegible⟩
    cases h
    case name => rfl
    all_goals contradiction

-- What an apprentice can answer by itself, it is only refused for the true label.
theorem refuses_iff_of_ok (hg : a.guess q = .ok predicted) : a.Refuses q e ↔
    e = .outOfRange ∧ a.training = true ∧
      ∃ target, q.oracle = some target ∧ (target ≤ -a.policy.labels ∨ a.policy.labels < target) := by
  have ⟨reached, legible⟩ := sensible_of_guess hg
  constructor
  case mp =>
    intro h
    cases h
    case oracle target _ _ training oracle outside => exact ⟨rfl, training, target, oracle, outside⟩
    all_goals contradiction
  case mpr =>
    rintro ⟨rfl, training, target, oracle, outside⟩
    exact .oracle reached legible training oracle outside

-- A query that is refused leaves no trace, and an answer changes no more than it has to.
theorem decide_all_or_nothing (pos : 1 ≤ a.policy.labels) (q : Query) :
    (∀ e a', decide q a = .error e a' ↔ a.Refuses q e ∧ a' = a) ∧
      ∀ label a', decide q a = .ok label a' → a.Confined q label a' := by
  cases a.answering q
  case refused e hg =>
    rw [decide_error hg]
    refine ⟨fun e' a' => ?_, fun _ _ h => nomatch h⟩
    simp [refuses_iff_of_error pos hg, eq_comm]
  case unaided predicted hg unaided =>
    rw [decide_unaided hg unaided]
    refine ⟨fun e' a' => iff_of_false nofun fun ⟨refused, _⟩ => ?_, fun label a' h => ?_⟩
    case refine_1 =>
      have ⟨_, training, _, oracle, _⟩ := (refuses_iff_of_ok hg).mp refused
      simp [training, oracle] at unaided
    case refine_2 =>
      cases h
      exact confined_of_policy (.refl _) predicted
  case aided input predicted target hg hi training oracle =>
    rw [decide_aided hg hi training oracle]
    cases taught hg hi target
    case done inside updated policy =>
      rw [updated]
      refine ⟨fun e' a' => iff_of_false nofun fun ⟨refused, _⟩ => ?_, fun label a' h => ?_⟩
      case refine_1 =>
        have ⟨_, _, _, oracle', outside⟩ := (refuses_iff_of_ok hg).mp refused
        cases oracle.symm.trans oracle'
        exact inside outside
      case refine_2 =>
        cases h
        exact confined_of_policy policy target
    case failed outside updated =>
      rw [updated]
      have refused : a.Refuses q .outOfRange :=
        (refuses_iff_of_ok hg).mpr ⟨rfl, training, target, oracle, outside⟩
      refine ⟨fun e' a' => ⟨fun h => ?_, fun ⟨h, same⟩ => ?_⟩, fun _ _ h => nomatch h⟩
      case refine_1 =>
        cases h
        exact ⟨refused, rfl⟩
      case refine_2 => rw [((refuses_iff_of_ok hg).mp h).left, same]

-- One of two labels is learned, a third is not, and there is only one learner to ask.
theorem decide_all_or_nothing_sample :
    let a : Apprentice := { policy :=
      { labels := 2, space := .standard, rate := 1.0, learners := #[.zero] } }
    1 ≤ a.policy.labels ∧
      decide { tag := 7, oracle := some 3 } a = .error .outOfRange a ∧
      decide { tag := 7, learner := some 1 } a = .error (.invalid (.learner 1 1)) a ∧
      ∃ label a', decide { tag := 7, oracle := some 2 } a = .ok label a' ∧
        a.Confined { tag := 7, oracle := some 2 } label a' := by
  intro a
  have pos : 1 ≤ a.policy.labels := by decide
  have reached {q : Query} (h : q.learner = none) : a.Reaches q := by simp [Reaches, h, a]
  have legible {q : Query} (h : q.conditions = []) : a.Legible q := by simp [Legible, resolve, h]
  refine ⟨pos, ?third, ?learner, ?taught⟩
  case third =>
    have outside : (3 : Int) ≤ -a.policy.labels ∨ (a.policy.labels : Int) < 3 := by decide
    exact ((decide_all_or_nothing pos _).left _ _).mpr
      ⟨.oracle (reached rfl) (legible rfl) rfl rfl outside, rfl⟩
  case learner =>
    have unreached : ¬a.Reaches { tag := 7, learner := some 1 } := by simp [Reaches, a]
    have cited : Fault.raised (.invalid (.learner 1 1)) = .invalid (.learner 1 1) := by
      refine Fault.raised_of_writable fun n hn => Decimal.writable_of_lt ?_
      obtain rfl | rfl : n = 1 ∨ n = 0 := by simpa [Fault.cited, Invalid.cited] using hn
      all_goals decide
    exact ((decide_all_or_nothing pos _).left _ _).mpr ⟨cited ▸ .learner unreached, rfl⟩
  case taught =>
    obtain ⟨refused, confined⟩ := decide_all_or_nothing pos { tag := 7, oracle := some 2 }
    cases h : decide { tag := 7, oracle := some 2 } a
    case ok label a' => exact ⟨label, a', rfl, confined label a' h⟩
    case error e a' =>
      cases ((refused e a').mp h).left
      case learner unreached => exact absurd (reached rfl) unreached
      case name illegible => exact absurd (legible rfl) illegible
      case oracle oracle outside =>
        cases oracle
        exact absurd outside (by decide)

end CollectiveLabeling.Apprentice
