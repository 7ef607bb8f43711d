import CollectiveLabeling.Perceptron
import CollectiveLabeling.Proofs.Step

namespace CollectiveLabeling

open Step

-- Something to be learned: the rows with their values, the label that was meant, and the one that was
-- predicted.
structure Lesson (α : Type) where
  input     : List (Int × α)
  target    : Int
  predicted : Int

theorem Array.modify_modify {β : Type} (xs : Array β) (i : Nat) (f g : β → β) :
    (xs.modify i f).modify i g = xs.modify i (g ∘ f) := by
  refine Array.ext_getElem? fun j => ?_
  simp only [Array.getElem?_modify]
  split
  case isTrue => rw [Option.map_map]
  case isFalse => rfl

theorem Array.modify_id {β : Type} (xs : Array β) (i : Nat) : xs.modify i id = xs := by
  refine Array.ext_getElem? fun j => ?_
  rw [Array.getElem?_modify, Option.map_id, id, ite_self]

variable {α : Type}

namespace Learner

variable [Add α] [Sub α] [Mul α] [Neg α] [OfNat α 0] {labels : Nat}

def shift (label : Fin labels) (rate : α) (input : List (Int × α)) (l : Learner α labels) :
    Learner α labels :=
  input.foldl (fun l (row, value) => l.addWeight row.toNat label (rate * value)) l

def turn (rate : α) (input : List (Int × α)) (target predicted : Fin labels) (l : Learner α labels) :
    Learner α labels :=
  (((l.shift target rate input).shift predicted (-rate) input).addBias target rate).subBias predicted
    rate

-- What becomes of a learner by a lesson. There is nothing to learn from a prediction that was right,
-- or about labels that the learner does not have.
def taught (rate : α) (l : Learner α labels) (lesson : Lesson α) : Learner α labels :=
  if lesson.target = lesson.predicted then l
  else match Index.fin? labels (lesson.target - 1), Index.fin? labels (lesson.predicted - 1) with
    | some target, some predicted => l.turn rate lesson.input target predicted
    | _, _ => l

end Learner

namespace Perceptron

-- The policy with other learners in the place of its own.
@[reducible]
def withLearners (p : Perceptron α) (ls : Array (Learner α p.labels)) : Perceptron α :=
  { p with learners := ls }

variable {p : Perceptron α} {ls : Array (Learner α p.labels)} {i : Nat}

theorem learnerAt_natCast (hi : i < ls.size) : (p.withLearners ls).learnerAt i = .ok ⟨i, hi⟩ := by
  simp [learnerAt, Index.fin?_natCast hi]

theorem rowAt_eq_ok {row : Int} (h : 0 ≤ row ∧ row < p.space.rows) : p.rowAt row = .ok row.toNat := by
  obtain ⟨k, rfl⟩ := Int.eq_ofNat_of_zero_le h.left
  have lt : k < p.space.rows := Int.ofNat_lt.mp h.right
  simp [rowAt, Index.place?_natCast lt]

theorem fin?_pred {labels : Nat} {label : Int} (h : 1 ≤ label ∧ label ≤ labels) :
    ∃ place, Index.fin? labels (label - 1) = some place := by
  obtain ⟨k, hk⟩ := Int.eq_ofNat_of_zero_le (Int.sub_nonneg_of_le h.left)
  have lt : k < labels := by omega
  exact ⟨_, hk ▸ Index.fin?_natCast lt⟩

section Update

variable (hi : i < ls.size)
include hi

section Found

variable {place : Int} {label : Fin p.labels} (hl : Index.fin? p.labels place = some label)
include hl

theorem lowerBias_ok [Sub α] : lowerBias i place (p.withLearners ls) =
    .ok ⟨⟩ (p.withLearners (ls.modify i fun l => l.subBias label p.rate)) := by
  simp [lowerBias, learnerAt_natCast hi, labelAt, hl, lift, modifyLearner]

variable [Add α]

theorem raiseBias_ok : raiseBias i place (p.withLearners ls) =
    .ok ⟨⟩ (p.withLearners (ls.modify i fun l => l.addBias label p.rate)) := by
  simp [raiseBias, learnerAt_natCast hi, labelAt, hl, lift, modifyLearner]

variable [OfNat α 0]

theorem shiftWeight_ok {row : Int} (hr : 0 ≤ row ∧ row < p.space.rows) (delta : α) :
    shiftWeight i place delta row (p.withLearners ls) =
      .ok ⟨⟩ (p.withLearners (ls.modify i fun l => l.addWeight row.toNat label delta)) := by
  have row : (p.withLearners ls).rowAt row = .ok row.toNat := rowAt_eq_ok hr
  simp [shiftWeight, learnerAt_natCast hi, row, labelAt, hl, lift, modifyLearner]

theorem forM_shiftWeight_ok [Mul α] {input : List (Int × α)}
    (rows : ∀ x ∈ input, 0 ≤ x.1 ∧ x.1 < p.space.rows) (rate : α) :
    (input.forM fun x => shiftWeight i place (rate * x.2) x.1) (p.withLearners ls) =
      .ok ⟨⟩ (p.withLearners (ls.modify i (Learner.shift label rate input))) := by
  induction input generalizing ls
  case nil =>
    have same : ls.modify i (Learner.shift label rate []) = ls := Array.modify_id ls i
    rw [same]
    rfl
  case cons x input hi' =>
    have first := shiftWeight_ok hi hl (rows x (by simp)) (rate * x.2)
    have size : i < (ls.modify i fun l => l.addWeight x.1.toNat label (rate * x.2)).size := by
      simpa using hi
    have rest := hi' size fun y hy => rows y (by simp [hy])
    simp only [List.forM_eq_forM, List.forM_cons] at rest ⊢
    rw [bind_ok first, rest, Array.modify_modify]
    rfl

end Found

variable [Add α] [Sub α] [Mul α] [Neg α] [OfNat α 0] {lesson : Lesson α}
  (rows : ∀ x ∈ lesson.input, 0 ≤ x.1 ∧ x.1 < p.space.rows)
include rows

theorem update_ok {target predicted : Fin p.labels}
    (ht : Index.fin? p.labels (lesson.target - 1) = some target)
    (hp : Index.fin? p.labels (lesson.predicted - 1) = some predicted) :
    update i lesson.input lesson.target lesson.predicted (p.withLearners ls) =
      .ok ⟨⟩ (p.withLearners (ls.modify i (Learner.taught p.rate · lesson))) := by
  by_cases right : lesson.target = lesson.predicted
  case pos =>
    have same : (Learner.taught p.rate · lesson) = (id : Learner α p.labels → Learner α p.labels) := by
      funext l
      simp [Learner.taught, right]
    simp only [update, right, if_true, pure_apply, same, Array.modify_id]
  case neg =>
    have turned : (Learner.taught p.rate · lesson) =
        Learner.turn p.rate lesson.input target predicted := by
      funext l
      simp [Learner.taught, right, ht, hp]
    simp only [update, right, if_false, turned]
    refine (bind_ok rfl).trans ?_
    refine (bind_ok (forM_shiftWeight_ok hi ht rows p.rate)).trans ?_
    refine (bind_ok (forM_shiftWeight_ok (by simpa using hi) hp rows (-p.rate))).trans ?_
    refine (bind_ok (raiseBias_ok (by simpa using hi) ht)).trans ?_
    refine (lowerBias_ok (by simpa using hi) hp).trans ?_
    simp only [Array.modify_modify]
    rfl

-- If there is no such label to turn to, nothing has been written yet.
theorem update_error (wrong : lesson.target ≠ lesson.predicted)
    (ht : Index.fin? p.labels (lesson.target - 1) = none) :
    update i lesson.input lesson.target lesson.predicted (p.withLearners ls) =
      .error .outOfRange (p.withLearners ls) := by
  simp only [update, wrong, if_false]
  refine (bind_ok rfl).trans ?_
  cases hin : lesson.input
  case nil =>
    refine (bind_ok rfl).trans <| (bind_ok rfl).trans <| bind_error ?_
    simp [raiseBias, learnerAt_natCast hi, labelAt, ht, lift]
  case cons x input =>
    have row : (p.withLearners ls).rowAt x.1 = .ok x.1.toNat := rowAt_eq_ok (rows x (by simp [hin]))
    refine bind_error ?_
    simp only [List.forM_eq_forM, List.forM_cons]
    refine bind_error ?_
    simp [shiftWeight, learnerAt_natCast hi, row, labelAt, ht, lift]

-- What an update comes to whatever the target label.
theorem outcome_update {predicted : Fin p.labels}
    (hp : Index.fin? p.labels (lesson.predicted - 1) = some predicted) :
    outcome (update i lesson.input lesson.target lesson.predicted) (p.withLearners ls) =
      (if lesson.target = lesson.predicted ∨ (Index.fin? p.labels (lesson.target - 1)).isSome then .ok ⟨⟩
        else .error .outOfRange,
      p.withLearners (ls.modify i (Learner.taught p.rate · lesson))) := by
  cases ht : Index.fin? p.labels (lesson.target - 1)
  case some =>
    rw [if_pos (.inr rfl)]
    exact outcome_ok.mpr (update_ok hi rows ht hp)
  case none =>
    have same : (Learner.taught p.rate · lesson) = (id : Learner α p.labels → Learner α p.labels) := by
      funext x
      simp [Learner.taught, ht]
    rw [same, Array.modify_id]
    by_cases right : lesson.target = lesson.predicted
    case pos => simp [outcome, update, right]
    case neg => simpa [right] using outcome_error.mpr (update_error hi rows right ht)

end Update
end Perceptron
end CollectiveLabeling
