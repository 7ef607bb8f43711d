import CollectiveLabeling.Proofs.Perceptron.Tenure
import Mathlib.Algebra.BigOperators.Group.Finset.Piecewise
import Mathlib.Algebra.BigOperators.Ring.Finset
import Mathlib.Algebra.Order.BigOperators.Group.Finset
import Mathlib.Algebra.Order.Ring.Rat
import Mathlib.Algebra.BigOperators.Ring.List
import Mathlib.Tactic.Linarith
import Mathlib.Tactic.Ring

namespace CollectiveLabeling

open Step

section Mass

variable {κ α : Type} [DecidableEq κ] [CommRing α]

-- What stands at a row in all: a row may be named more than once.
def massAt (input : List (κ × α)) (row : κ) : α :=
  ((input.filter (·.1 = row)).map Prod.snd).sum

theorem massAt_cons (x : κ × α) (input : List (κ × α)) (row : κ) :
    massAt (x :: input) row = (if x.1 = row then x.2 else 0) + massAt input row := by
  by_cases h : x.1 = row <;> simp [massAt, h]

-- The squares of what stands at the rows, each row taken once.
def energy (input : List (κ × α)) : α :=
  ∑ row ∈ (input.map Prod.fst).toFinset, massAt input row ^ 2

-- A sum over the entries, taken together row by row.
theorem sum_map_mul (f : κ → α) {input : List (κ × α)} {rows : Finset κ}
    (h : ∀ x ∈ input, x.1 ∈ rows) :
    (input.map fun x => f x.1 * x.2).sum = ∑ row ∈ rows, f row * massAt input row := by
  induction input
  case nil => simp [massAt]
  case cons x input hi =>
    have ⟨first, rest⟩ := List.forall_mem_cons.mp h
    have own : ∑ row ∈ rows, f row * (if x.1 = row then x.2 else 0) = f x.1 * x.2 := by
      simp only [mul_ite, mul_zero, Finset.sum_ite_eq, first, if_true]
    simp only [List.map_cons, List.sum_cons, hi rest, massAt_cons, mul_add, Finset.sum_add_distrib, own]

theorem sum_massAt_mul (input : List (κ × α)) :
    (input.map fun x => massAt input x.1 * x.2).sum = energy input := by
  have rows (x : κ × α) (hx : x ∈ input) : x.1 ∈ (input.map Prod.fst).toFinset :=
    List.mem_toFinset.mpr (List.mem_map_of_mem hx)
  rw [sum_map_mul _ rows, energy]
  exact Finset.sum_congr rfl fun row _ => (sq _).symm

-- It does not matter what the rows are called.
theorem energy_map {κ' : Type} [DecidableEq κ'] {f : κ → κ'} {input : List (κ × α)}
    (inj : ∀ x ∈ input, ∀ y ∈ input, f x.1 = f y.1 → x.1 = y.1) :
    energy (input.map (Prod.map f id)) = energy input := by
  have mass (x : κ × α) (hx : x ∈ input) :
      massAt (input.map (Prod.map f id)) (f x.1) = massAt input x.1 := by
    have same : input.filter (f ·.1 = f x.1) = input.filter (·.1 = x.1) :=
      List.filter_congr fun y hy => decide_eq_decide.mpr ⟨inj y hy x hx, congrArg f⟩
    simp [massAt, List.filter_map, Function.comp_def, same]
  rw [← sum_massAt_mul, ← sum_massAt_mul, List.map_map]
  exact congrArg List.sum (List.map_congr_left fun x hx => congrArg (· * x.2) (mass x hx))

end Mass

namespace Learner

variable {α : Type} [CommRing α] {labels : Nat}

theorem weighted_eq (l : Learner α labels) (input : List (Nat × α)) (label : Fin labels) :
    l.weighted input label = (input.map fun x => (l.weight x.1).get label * x.2).sum := by
  have fold (start : α) : input.foldl (fun sum x => sum + (l.weight x.1).get label * x.2) start =
      start + (input.map fun x => (l.weight x.1).get label * x.2).sum := by
    induction input generalizing start
    case nil => simp
    case cons x input hi => simp [hi, add_assoc]
  rw [← zero_add (List.sum _)]
  exact fold 0

theorem score_eq (l : Learner α labels) (input : List (Nat × α)) (label : Fin labels) :
    l.score input label = l.weighted input label + l.bias.get label := by
  cases input <;> simp [score, weighted]

omit [CommRing α] in
theorem get_ofFn (f : Fin labels → α) (label : Fin labels) : (Vector.ofFn f).get label = f label :=
  Vector.getElem_ofFn _

omit [CommRing α] in
theorem get_set (v : Vector α labels) (label other : Fin labels) (x : α) :
    (v.set label x label.isLt).get other = if label = other then x else v.get other := by
  change (v.set label x label.isLt)[(other : Nat)] = if label = other then x else v[(other : Nat)]
  simp only [Vector.getElem_set, Fin.val_inj]

theorem get_weight_addWeight (l : Learner α labels) (row row' : Nat) (label label' : Fin labels)
    (delta : α) : ((l.addWeight row label delta).weight row').get label' =
      (l.weight row').get label' + if label = label' ∧ row = row' then delta else 0 := by
  by_cases here : row = row' <;> by_cases own : label = label' <;>
    simp [addWeight, weight, Std.TreeMap.getD_insert, get_set, here, own]

theorem bias_shift (l : Learner α labels) (label : Fin labels) (rate : α) (input : List (Int × α)) :
    (l.shift label rate input).bias = l.bias := by
  induction input generalizing l
  case nil => rfl
  case cons x input hi => exact hi _

-- A shift moves the weights of one label, each row's by all that stands at it.
theorem get_weight_shift (l : Learner α labels) (label label' : Fin labels) (rate : α)
    (input : List (Int × α)) (row : Nat) :
    ((l.shift label rate input).weight row).get label' = (l.weight row).get label' +
      if label = label' then rate * massAt (input.map (Prod.map Int.toNat id)) row else 0 := by
  induction input generalizing l
  case nil => simp [shift, massAt]
  case cons x input hi =>
    have step : l.shift label rate (x :: input) =
        (l.addWeight x.1.toNat label (rate * x.2)).shift label rate input := rfl
    rw [step, hi, get_weight_addWeight, List.map_cons, massAt_cons]
    by_cases own : label = label' <;> by_cases here : x.1.toNat = row <;> simp [own, here, mul_add, add_assoc]

theorem taught_of_ne {rate : α} {input : List (Int × α)} {target predicted : Fin labels}
    (ne : target ≠ predicted) :
    (taught rate · ⟨input, (target : Int) + 1, (predicted : Int) + 1⟩ : Learner α labels → _) =
      turn rate input target predicted := by
  have wrong : (target : Int) + 1 ≠ (predicted : Int) + 1 := by
    have := Fin.val_ne_of_ne ne
    omega
  funext l
  simp [taught, wrong, Index.fin?_natCast target.isLt, Index.fin?_natCast predicted.isLt]

-- How far a step moves the scores: it raises the target and lowers the prediction by the same.
def push (rate : α) (target predicted label : Fin labels) : α :=
  (if target = label then rate else 0) - if predicted = label then rate else 0

theorem get_weight_turn (l : Learner α labels) (rate : α) (input : List (Int × α))
    (target predicted label : Fin labels) (row : Nat) :
    ((l.turn rate input target predicted).weight row).get label = (l.weight row).get label +
      push rate target predicted label * massAt (input.map (Prod.map Int.toNat id)) row := by
  have shifted : ((l.turn rate input target predicted).weight row).get label =
      (((l.shift target rate input).shift predicted (-rate) input).weight row).get label := rfl
  rw [shifted, get_weight_shift, get_weight_shift, push]
  by_cases up : target = label <;> by_cases down : predicted = label <;> simp [up, down]

theorem get_bias_turn (l : Learner α labels) (rate : α) (input : List (Int × α))
    (target predicted label : Fin labels) :
    (l.turn rate input target predicted).bias.get label =
      l.bias.get label + push rate target predicted label := by
  simp only [turn, subBias, addBias, bias_shift, get_set, push]
  by_cases up : target = label <;> by_cases down : predicted = label <;>
    simp [up, down, sub_eq_add_neg]

-- The score a label gets after a step, from what the step was about.
theorem score_turn (l : Learner α labels) (rate : α) {input : List (Int × α)}
    (rows : ∀ x ∈ input, 0 ≤ x.1) (target predicted label : Fin labels) :
    (l.turn rate input target predicted).score (input.map (Prod.map Int.toNat id)) label =
      l.score (input.map (Prod.map Int.toNat id)) label +
        push rate target predicted label * (energy input + 1) := by
  have inj (x : Int × α) (hx : x ∈ input) (y : Int × α) (hy : y ∈ input)
      (same : x.1.toNat = y.1.toNat) : x.1 = y.1 := by
    have := rows x hx
    have := rows y hy
    omega
  rw [← energy_map inj]
  generalize hp : input.map (Prod.map Int.toNat id) = placed
  have moved (x : Nat × α) :
      ((l.turn rate input target predicted).weight x.1).get label * x.2 =
        (l.weight x.1).get label * x.2 +
          push rate target predicted label * (massAt placed x.1 * x.2) := by
    rw [get_weight_turn, hp, add_mul, mul_assoc]
  rw [score_eq, score_eq, weighted_eq, weighted_eq, get_bias_turn]
  simp only [moved, List.sum_map_add, List.sum_map_mul_left, sum_massAt_mul, mul_add, mul_one]
  ring

theorem score_turn_other (l : Learner α labels) (rate : α) (input : List (Int × α))
    {target predicted label : Fin labels} (up : target ≠ label) (down : predicted ≠ label)
    (scored : List (Nat × α)) :
    (l.turn rate input target predicted).score scored label = l.score scored label := by
  simp [score_eq, weighted_eq, get_weight_turn, get_bias_turn, push, up, down]

end Learner

namespace Perceptron

section Scores

variable {α : Type} [CommRing α] {p : Perceptron α} {ls : Array (Learner α p.labels)} {i : Nat}
  {rows : List Int} {values : List α}

omit [CommRing α] in
theorem paired_of_length (h : rows.length = values.length) :
    paired rows values = some (rows.zip values) := by
  unfold paired
  split
  case h_1 value =>
    have ⟨row, hr⟩ := List.length_eq_one_iff.mp h
    rw [hr]
    rfl
  case h_2 => rw [if_pos (.inr h)]

-- The rows of the table that are asked for, with their values.
def placed (p : Perceptron α) (rows : List Int) (values : List α) : Except Fault (List (Nat × α)) := do
  let _ ← rows.mapM p.rowAt
  (← spread rows values).mapM fun x => (·, x.2) <$> p.rowAt x.1

omit [CommRing α] in
theorem placed_eq (inside : ∀ row ∈ rows, 0 ≤ row ∧ row < p.space.rows)
    (length : rows.length = values.length) :
    p.placed rows values = .ok ((rows.zip values).map (Prod.map Int.toNat id)) := by
  have found (row : Int) (hr : row ∈ rows) : p.rowAt row = .ok row.toNat := rowAt_eq_ok (inside row hr)
  have places : rows.mapM p.rowAt = .ok (rows.map Int.toNat) := Attempt.mapM_eq_ok found
  simp only [placed, places, spread_of_paired (paired_of_length length), Attempt.ok_bind]
  exact Attempt.mapM_eq_ok fun x hx => by rw [found x.1 (List.of_mem_zip hx).left]; rfl

-- The scores are those of one learner, whichever end it is counted from.
theorem spreadScores_some (lt : i < ls.size) {learner : Int} (h : Index.place? ls.size learner = some i) :
    (p.withLearners ls).spreadScores learner rows values =
      (fun input => Vector.ofFn (ls[i].score input)) <$> p.placed rows values := by
  rw [← Index.map_fin?] at h
  have ⟨⟨_, _⟩, found, rfl⟩ := Option.map_eq_some_iff.mp h
  have learnerAt : (p.withLearners ls).learnerAt learner = .ok ⟨i, lt⟩ := by
    simp [Perceptron.learnerAt, found]
  have rowAt : (p.withLearners ls).rowAt = p.rowAt := rfl
  simp only [spreadScores, scores, placed, learnerAt, rowAt, Attempt.ok_bind, map_bind]
  rfl

theorem spreadScores_none {learner : Int} (h : Index.place? ls.size learner = none) :
    (p.withLearners ls).spreadScores learner rows values = .error .outOfRange := by
  rw [← Index.map_fin?, Option.map_eq_none_iff] at h
  simp [spreadScores, learnerAt, h]

section Modify

variable {learner : Int} (f : Learner α p.labels → Learner α p.labels) (rows : List Int)
  (values : List α)

-- What is done to one learner does not show in the scores of another.
theorem spreadScores_modify (other : Index.place? ls.size learner ≠ some i) :
    (p.withLearners (ls.modify i f)).spreadScores learner rows values =
      (p.withLearners ls).spreadScores learner rows values := by
  have size : (ls.modify i f).size = ls.size := Array.size_modify
  cases hp : Index.place? ls.size learner
  case none => rw [spreadScores_none hp, spreadScores_none (size.symm ▸ hp)]
  case some k =>
    have lt : k < ls.size := Index.lt_of_place? hp
    have ne : i ≠ k := fun same => other (same ▸ hp)
    have lt' : k < (ls.modify i f).size := size.symm ▸ lt
    have kept : (ls.modify i f)[k] = ls[k] := by rw [Array.getElem_modify, if_neg ne]
    rw [spreadScores_some lt hp, spreadScores_some lt' (size.symm ▸ hp), kept]

-- Nor in the scores of labels that it leaves alone.
theorem get_spreadScores_modify (hi : i < ls.size) {label : Fin p.labels}
    (same : ∀ input, (f ls[i]).score input label = ls[i].score input label) :
    (Vector.get · label) <$> (p.withLearners (ls.modify i f)).spreadScores i rows values =
      (Vector.get · label) <$> (p.withLearners ls).spreadScores i rows values := by
  have hi' : i < (ls.modify i f).size := Array.size_modify.symm ▸ hi
  have changed : (ls.modify i f)[i] = f ls[i] := by rw [Array.getElem_modify_self]
  rw [spreadScores_some hi (Index.place?_natCast hi), spreadScores_some hi' (Index.place?_natCast hi'), changed]
  cases p.placed rows values
  case error => rfl
  case ok input => simp only [Attempt.map_ok, Learner.get_ofFn, same]

end Modify
end Scores

theorem energy_nonneg {κ : Type} [DecidableEq κ] (input : List (κ × ℚ)) : 0 ≤ energy input :=
  Finset.sum_nonneg fun _ _ => sq_nonneg _

-- What a step does to the scores of a policy on the rows and values that it is about, and on any
-- others.
structure Widened (p : Perceptron ℚ) (i : Nat) (rows : List Int) (values : List ℚ)
    (target predicted : Fin p.labels) (ls : Array (Learner ℚ p.labels)) (old new : Vector ℚ p.labels) :
    Prop where
  updated : spreadUpdate i rows values (target + 1) (predicted + 1) p = .ok ⟨⟩ (p.withLearners ls)
  before  : p.spreadScores i rows values = .ok old
  after   : (p.withLearners ls).spreadScores i rows values = .ok new
  raised  : new.get target = old.get target + p.rate * (energy (rows.zip values) + 1)
  lowered : new.get predicted = old.get predicted - p.rate * (energy (rows.zip values) + 1)
  gap     : 0 < p.rate → old.get target - old.get predicted < new.get target - new.get predicted
  kept    : ∀ label, label ≠ target → label ≠ predicted → ∀ rows values,
    (Vector.get · label) <$> (p.withLearners ls).spreadScores i rows values =
      (Vector.get · label) <$> p.spreadScores i rows values
  others  : ∀ learner, Index.place? p.learners.size learner ≠ some i → ∀ rows values,
    (p.withLearners ls).spreadScores learner rows values = p.spreadScores learner rows values

-- A step raises the score of the target and lowers that of the prediction by the rate times one more
-- than the energy of its input, and touches no other score.
theorem update_widens {p : Perceptron ℚ} {i : Nat} (hi : i < p.learners.size) {rows : List Int}
    {values : List ℚ} (inside : ∀ row ∈ rows, 0 ≤ row ∧ row < p.space.rows)
    (length : rows.length = values.length) {target predicted : Fin p.labels}
    (ne : target ≠ predicted) :
    ∃ ls old new, p.Widened i rows values target predicted ls old new := by
  have range (label : Fin p.labels) : 1 ≤ (label : Int) + 1 ∧ (label : Int) + 1 ≤ p.labels := by
    omega
  have updated : spreadUpdate i rows values (target + 1) (predicted + 1) (p.withLearners p.learners) = _ :=
    spreadUpdate_ok (paired_of_length length) hi inside (range target) (range predicted)
  rw [Learner.taught_of_ne ne] at updated
  let turn := Learner.turn p.rate (rows.zip values) target predicted
  have hi' : i < (p.learners.modify i turn).size := Array.size_modify.symm ▸ hi
  have turned : (p.learners.modify i turn)[i] = turn p.learners[i] := by rw [Array.getElem_modify_self]
  have before : (p.withLearners p.learners).spreadScores i rows values = _ :=
    spreadScores_some hi (Index.place?_natCast hi)
  have after : (p.withLearners (p.learners.modify i turn)).spreadScores i rows values = _ :=
    spreadScores_some hi' (Index.place?_natCast hi')
  rw [placed_eq inside length, Attempt.map_ok] at before after
  have nonneg : ∀ x ∈ rows.zip values, 0 ≤ x.1 := fun x hx => (inside x.1 (List.of_mem_zip hx).left).left
  have moved := p.learners[i].score_turn p.rate nonneg target predicted
  have positive := energy_nonneg (rows.zip values)
  refine ⟨_, _, _, updated, before, after, ?_, ?_, ?_, ?_, ?_⟩
  case refine_1 =>
    simp only [Learner.get_ofFn, turned, turn, moved, Learner.push, ne.symm, if_true, if_false]
    ring
  case refine_2 =>
    simp only [Learner.get_ofFn, turned, turn, moved, Learner.push, ne, if_true, if_false]
    ring
  case refine_3 =>
    intro rate
    simp only [Learner.get_ofFn, turned, turn, moved, Learner.push, ne, ne.symm, if_true, if_false]
    nlinarith
  case refine_4 =>
    intro label up down
    have same := p.learners[i].score_turn_other p.rate (rows.zip values) (Ne.symm up) (Ne.symm down)
    exact fun rows values => get_spreadScores_modify _ rows values hi same
  case refine_5 => exact fun _ other rows values => spreadScores_modify _ rows values other

-- A row that is named twice counts with both its values: three and one below zero are squared.
theorem update_widens_sample :
    let p : Perceptron ℚ := { labels := 3, space := .standard, rate := 1 / 2, learners := #[.zero, .zero] }
    energy ([3, 5, 3].zip [1, -1, 2] : List (Int × ℚ)) = 10 ∧
    ∃ ls old new, p.Widened 1 [3, 5, 3] [1, -1, 2] 0 2 ls old new ∧
      old.get 0 - old.get 2 < new.get 0 - new.get 2 := by
  intro p
  have squares : energy ([3, 5, 3].zip [1, -1, 2] : List (Int × ℚ)) = 10 := by
    decide +kernel
  obtain ⟨ls, old, new, widened⟩ : ∃ ls old new, p.Widened 1 [3, 5, 3] [1, -1, 2] 0 2 ls old new :=
    update_widens (by decide) (by decide +kernel) rfl (by decide)
  exact ⟨squares, ls, old, new, widened, widened.gap (by norm_num [p])⟩

end Perceptron
end CollectiveLabeling
