import CollectiveLabeling.Proofs.Confusion.Diagonal
import Mathlib.Algebra.Order.BigOperators.Group.Finset
import Mathlib.Order.Interval.Finset.Nat
import Mathlib.Tactic.FieldSimp
import Mathlib.Tactic.Linarith
import Mathlib.Tactic.Positivity

namespace CollectiveLabeling

open Step

namespace Confusion

section Calls

-- What can be asked of a table.
inductive Call
  | add (trueLabel predicted : Int)
  | reset

def Call.step : Call → Step Confusion Unit
  | add trueLabel predicted => Confusion.add trueLabel predicted
  | reset => modify clear

-- The table after some calls, whether they succeeded or not.
def after (c : Confusion) (calls : List Call) : Confusion :=
  calls.foldl (fun c call => (call.step.outcome c).2) c

-- What a call makes of the number in a cell. Labels count from either end of the table.
def Call.tally (side t p n : Nat) : Call → Nat
  | add x y => if Index.place? side x = some t ∧ Index.place? side y = some p then n + 1 else n
  | reset => 0

theorem add_outcome (c : Confusion) (x y : Int) :
    (add x y).outcome c = match Index.fin? c.side x, Index.fin? c.side y with
      | some t, some p => (.ok (), c.bump t p)
      | _, _ => (.error .outOfRange, c) := by
  simp only [outcome, add, bind_apply, get_apply]
  cases Index.fin? c.side x <;> cases Index.fin? c.side y <;> rfl

theorem step_spec (call : Call) (c : Confusion) :
    (call.step.outcome c).2.side = c.side ∧
      ∀ t p, (call.step.outcome c).2.count t p = call.tally c.side t p (c.count t p) := by
  cases call
  case reset => exact ⟨rfl, fun t p => c.count_clear t p⟩
  case add x y =>
    simp only [Call.step, Call.tally, add_outcome, ← Index.map_fin?]
    cases Index.fin? c.side x <;> cases Index.fin? c.side y
    case some.some i j =>
      refine ⟨rfl, fun t p => ?_⟩
      simp only [count_bump, Option.map_some, Option.some.injEq, eq_comm (a := t), eq_comm (a := p)]
      split <;> rfl
    all_goals simp

-- Every cell holds as many as were counted there since the last reset.
theorem after_spec (c : Confusion) (calls : List Call) :
    (c.after calls).side = c.side ∧
      ∀ t p, (c.after calls).count t p =
        calls.foldl (fun n call => call.tally c.side t p n) (c.count t p) := by
  induction calls generalizing c
  case nil => exact ⟨rfl, fun _ _ => rfl⟩
  case cons call calls hi =>
    have ⟨side, count⟩ := step_spec call c
    have ⟨side', count'⟩ := hi (call.step.outcome c).2
    refine ⟨side'.trans side, fun t p => ?_⟩
    have cell := count' t p
    rw [side, count] at cell
    exact cell

theorem ofLabels_spec {labels : Int} {c : Confusion} (made : ofLabels labels = .ok c) :
    c.side = (labels + 1).toNat ∧ ∀ t p, c.count t p = 0 := by
  simp only [ofLabels] at made
  split at made <;> cases made
  exact ⟨rfl, fun t p => cell_zero _ t p⟩

end Calls

section Guard

variable {α : Type}

-- A number, unless there was a division by zero on the way to it.
structure Guarded (zero : α → Bool) where
  value : Option α

def Guarded.sure {zero : α → Bool} (x : α) : Guarded zero :=
  ⟨some x⟩

variable [Scale α] {zero : α → Bool}

instance : Scale (Guarded zero) where
  ofCount n := .sure (Scale.ofCount n)
  add x y := ⟨do return (← x.value) + (← y.value)⟩
  mul x y := ⟨do return (← x.value) * (← y.value)⟩
  div x y := ⟨do
    let x ← x.value
    let y ← y.value
    if zero y then none else some (x / y)⟩

-- Arithmetic in which no count above zero comes to zero, and neither do two of its rates together.
-- Floating point numbers are fair up to far more than can be counted.
structure Fair (zero : α → Bool) (limit : Nat) : Prop where
  count : ∀ n, 0 < n → n ≤ limit → zero (Scale.ofCount n) = false
  rates : ∀ n p t, 0 < n → n ≤ p → p ≤ limit → n ≤ t → t ≤ limit →
    zero (Scale.ofCount n / Scale.ofCount p + Scale.ofCount n / Scale.ofCount t) = false

namespace Guarded

theorem sure_div {x y : α} (h : zero y = false) :
    (sure x / sure y : Guarded zero) = sure (x / y) := by
  change Guarded.mk (if zero y then none else some (x / y)) = _
  rw [h]
  rfl

theorem foldl_sure (xs : List α) (start : α) :
    (xs.map sure).foldl (· + ·) (sure start : Guarded zero) = sure (xs.foldl (· + ·) start) := by
  induction xs generalizing start
  case nil => rfl
  case cons x xs hi => exact hi (start + x)

theorem f1_sure {limit correct trues predictions : Nat} (fair : Fair zero limit)
    (le_trues : correct ≤ trues) (trues_le : trues ≤ limit)
    (le_predictions : correct ≤ predictions) (predictions_le : predictions ≤ limit) :
    (f1 correct trues predictions : Guarded zero) = sure (f1 correct trues predictions) := by
  simp only [f1]
  split
  case isTrue => rfl
  case isFalse ne =>
    have pos := Nat.pos_of_ne_zero ne
    have predicted := sure_div (x := (Scale.ofCount correct : α))
      (fair.count predictions (pos.trans_le le_predictions) predictions_le)
    have recalled := sure_div (x := (Scale.ofCount correct : α))
      (fair.count trues (pos.trans_le le_trues) trues_le)
    have rates := fair.rates correct predictions trues pos le_predictions predictions_le le_trues
      trues_le
    change sure _ * (sure _ / sure _) * (sure _ / sure _) / ((sure _ / sure _) + (sure _ / sure _)) = _
    rw [predicted, recalled]
    exact sure_div rates

end Guarded
end Guard

section Sums

-- The sums of the numbers in a row, in a column and in all of the table, over the labels up to `top`.
def rowSum (c : Confusion) (top t : Nat) : Nat :=
  ∑ p ∈ Finset.Icc 1 top, c.count t p

def columnSum (c : Confusion) (top p : Nat) : Nat :=
  ∑ t ∈ Finset.Icc 1 top, c.count t p

def blockSum (c : Confusion) (top : Nat) : Nat :=
  ∑ t ∈ Finset.Icc 1 top, c.rowSum top t

variable {c : Confusion} {top k : Nat}

theorem count_le_rowSum (hk : k ∈ Finset.Icc 1 top) (t : Nat) : c.count t k ≤ c.rowSum top t :=
  Finset.single_le_sum (f := c.count t) (fun _ _ => Nat.zero_le _) hk

theorem count_le_columnSum (hk : k ∈ Finset.Icc 1 top) (p : Nat) : c.count k p ≤ c.columnSum top p :=
  Finset.single_le_sum (f := (c.count · p)) (fun _ _ => Nat.zero_le _) hk

theorem rowSum_le (hk : k ∈ Finset.Icc 1 top) : c.rowSum top k ≤ c.blockSum top :=
  Finset.single_le_sum (f := c.rowSum top) (fun _ _ => Nat.zero_le _) hk

theorem columnSum_le (hk : k ∈ Finset.Icc 1 top) : c.columnSum top k ≤ c.blockSum top := by
  rw [blockSum]
  simp only [rowSum]
  rw [Finset.sum_comm]
  exact Finset.single_le_sum (f := c.columnSum top) (fun _ _ => Nat.zero_le _) hk

theorem count_eq_zero_of_not_occurs {t : Nat} (hk : k ∈ Finset.Icc 1 top) (none : ¬0 < c.rowSum top t) :
    c.count t k = 0 :=
  Nat.eq_zero_of_le_zero ((count_le_rowSum hk t).trans (Nat.not_lt.mp none))

-- A row that sums up to one of its numbers has no other.
theorem count_eq_zero_of_rowSum {t p : Nat} (hk : k ∈ Finset.Icc 1 top) (hp : p ∈ Finset.Icc 1 top)
    (ne : p ≠ k) (only : c.rowSum top t = c.count t k) : c.count t p = 0 := by
  have rest := Finset.add_sum_erase _ (c.count t) hk
  rw [← rowSum, only] at rest
  have none : ∑ p ∈ (Finset.Icc 1 top).erase k, c.count t p = 0 := by omega
  exact Finset.sum_eq_zero_iff.mp none p (Finset.mem_erase.mpr ⟨ne, hp⟩)

theorem toFinset_labelRange (size : c.side - 1 = top) : c.labelRange.toFinset = Finset.Icc 1 top := by
  ext k
  rw [List.mem_toFinset, mem_labelRange, Finset.mem_Icc]
  omega

theorem sumOf_labelRange (size : c.side - 1 = top) (f : Nat → Nat) :
    sumOf (c.labelRange.map f) = ∑ k ∈ Finset.Icc 1 top, f k := by
  rw [← toFinset_labelRange size, List.sum_toFinset f c.nodup_labelRange]
  rfl

theorem trueCount_eq (size : c.side - 1 = top) (t : Nat) : c.trueCount t = c.rowSum top t :=
  sumOf_labelRange size (c.count t)

theorem predictedCount_eq (size : c.side - 1 = top) (p : Nat) : c.predictedCount p = c.columnSum top p :=
  sumOf_labelRange size (c.count · p)

theorem mem_occurring (size : c.side - 1 = top) :
    k ∈ c.occurring ↔ k ∈ Finset.Icc 1 top ∧ 0 < c.rowSum top k := by
  rw [occurring, List.mem_filter, decide_eq_true_eq, trueCount_eq size, Nat.pos_iff_ne_zero,
    ← toFinset_labelRange size, List.mem_toFinset]

theorem mem_toFinset_occurring (size : c.side - 1 = top) :
    k ∈ c.occurring.toFinset ↔ k ∈ Finset.Icc 1 top ∧ 0 < c.rowSum top k :=
  List.mem_toFinset.trans (mem_occurring size)

theorem nodup_occurring (c : Confusion) : c.occurring.Nodup :=
  c.nodup_labelRange.filter _

theorem map_fst_perLabel {α : Type} [Scale α] (c : Confusion) :
    (c.perLabel (α := α)).map Prod.fst = c.occurring := by
  rw [perLabel, List.map_map]
  exact List.map_id c.occurring

-- Every label that occurs was counted at least once.
theorem length_occurring_le (size : c.side - 1 = top) : c.occurring.length ≤ c.blockSum top := by
  have within : c.occurring.toFinset ⊆ Finset.Icc 1 top := fun k hk =>
    ((mem_toFinset_occurring size).mp hk).left
  calc c.occurring.length
    _ = ∑ k ∈ c.occurring.toFinset, 1 := by
      rw [← Finset.card_eq_sum_ones, List.toFinset_card_of_nodup c.nodup_occurring]
    _ ≤ ∑ k ∈ c.occurring.toFinset, c.rowSum top k :=
      Finset.sum_le_sum fun k hk => ((mem_toFinset_occurring size).mp hk).right
    _ ≤ c.blockSum top := Finset.sum_le_sum_of_subset within

variable {α : Type} [Scale α] {zero : α → Bool}

theorem f1Of_sure (size : c.side - 1 = top) (fair : Fair zero (c.blockSum top))
    (hk : k ∈ Finset.Icc 1 top) : (c.f1Of k : Guarded zero) = .sure (c.f1Of k) := by
  simp only [f1Of, trueCount_eq size, predictedCount_eq size]
  exact Guarded.f1_sure fair (count_le_rowSum hk k) (rowSum_le hk) (count_le_columnSum hk k)
    (columnSum_le hk)

-- No label is scored and no mean is taken by a division by zero.
theorem perLabel_sure (size : c.side - 1 = top) (fair : Fair zero (c.blockSum top)) :
    (c.perLabel : List (Nat × Guarded zero)) = c.perLabel.map (Prod.map id .sure) := by
  simp only [perLabel, List.map_map]
  refine List.map_congr_left fun k hk => ?_
  exact congrArg (Prod.mk k) (f1Of_sure size fair ((mem_occurring size).mp hk).left)

theorem macroF1_sure (size : c.side - 1 = top) (fair : Fair zero (c.blockSum top)) :
    (c.macroF1 : Guarded zero) = .sure c.macroF1 := by
  simp only [macroF1, List.isEmpty_iff]
  split
  case isTrue => rfl
  case isFalse occurs =>
    have scores : c.occurring.map (c.f1Of (α := Guarded zero)) =
        (c.occurring.map c.f1Of).map .sure := by
      rw [List.map_map]
      exact List.map_congr_left fun k hk => f1Of_sure size fair ((mem_occurring size).mp hk).left
    have sum := @Guarded.foldl_sure _ _ zero (c.occurring.map c.f1Of) (Scale.ofCount 0)
    have length := fair.count c.occurring.length (List.length_pos_iff.mpr occurs)
      (length_occurring_le size)
    rw [scores]
    exact (congrArg (· / Guarded.sure (Scale.ofCount c.occurring.length)) sum).trans
      (Guarded.sure_div length)

end Sums

section Exact

variable {c : Confusion} {top k : Nat}

-- The score of a label in terms of its row and column.
def rate (c : Confusion) (top k : Nat) : Rat :=
  2 * c.count k k / (c.rowSum top k + c.columnSum top k)

theorem fair_rat (limit : Nat) : Fair (fun x : Rat => x == 0) limit where
  count n pos _ := beq_eq_false_iff_ne.mpr (Nat.cast_ne_zero.mpr (Nat.ne_of_gt pos))
  rates n p t pos le_p _ le_t _ := by
    have n_pos : (0 : Rat) < n := Nat.cast_pos.mpr pos
    have p_pos : (0 : Rat) < p := Nat.cast_pos.mpr (pos.trans_le le_p)
    have t_pos : (0 : Rat) < t := Nat.cast_pos.mpr (pos.trans_le le_t)
    exact beq_eq_false_iff_ne.mpr (ne_of_gt (add_pos (div_pos n_pos p_pos) (div_pos n_pos t_pos)))

theorem f1_eq {correct trues predictions : Nat} (le_trues : correct ≤ trues)
    (le_predictions : correct ≤ predictions) :
    (f1 correct trues predictions : Rat) = 2 * correct / (trues + predictions) := by
  simp only [f1]
  split
  case isTrue none => simp [none, Scale.ofCount]
  case isFalse ne =>
    have pos := Nat.pos_of_ne_zero ne
    have correct_pos : (0 : Rat) < correct := Nat.cast_pos.mpr pos
    have trues_pos : (0 : Rat) < trues := Nat.cast_pos.mpr (pos.trans_le le_trues)
    have predictions_pos : (0 : Rat) < predictions := Nat.cast_pos.mpr (pos.trans_le le_predictions)
    change ((2 : Nat) : Rat) * (correct / predictions) * (correct / trues) /
      (correct / predictions + correct / trues) = _
    push_cast
    field_simp

theorem f1Of_eq (size : c.side - 1 = top) (hk : k ∈ Finset.Icc 1 top) : c.f1Of k = c.rate top k := by
  simp only [f1Of, trueCount_eq size, predictedCount_eq size]
  exact f1_eq (count_le_rowSum hk k) (count_le_columnSum hk k)

-- Without a label that occurs the mean is taken over nothing, which here gives zero as well.
theorem macroF1_eq (size : c.side - 1 = top) :
    (c.macroF1 : Rat) = (∑ k ∈ c.occurring.toFinset, c.rate top k) / c.occurring.toFinset.card := by
  have scores : c.occurring.map (c.f1Of (α := Rat)) = c.occurring.map (c.rate top) :=
    List.map_congr_left fun k hk => f1Of_eq size ((mem_occurring size).mp hk).left
  rw [List.sum_toFinset _ c.nodup_occurring, List.toFinset_card_of_nodup c.nodup_occurring]
  simp only [macroF1, List.isEmpty_iff, scores]
  split
  case isTrue none => simp [none, Scale.ofCount]
  case isFalse =>
    rw [List.sum_eq_foldl]
    rfl

theorem rate_nonneg (c : Confusion) (top k : Nat) : 0 ≤ c.rate top k := by
  unfold rate
  positivity

theorem rate_le_one (hk : k ∈ Finset.Icc 1 top) : c.rate top k ≤ 1 := by
  have row := count_le_rowSum hk (c := c) k
  have column := count_le_columnSum hk (c := c) k
  have le : 2 * c.count k k ≤ c.rowSum top k + c.columnSum top k := by omega
  refine div_le_one_of_le₀ ?_ (by positivity)
  exact_mod_cast le

theorem rate_eq_zero (occurs : 0 < c.rowSum top k) : c.rate top k = 0 ↔ c.count k k = 0 := by
  have ne : (c.rowSum top k : Rat) + c.columnSum top k ≠ 0 := by positivity
  rw [rate, div_eq_zero_iff, or_iff_left ne]
  simp

theorem rate_eq_one (hk : k ∈ Finset.Icc 1 top) (occurs : 0 < c.rowSum top k) :
    c.rate top k = 1 ↔ c.rowSum top k = c.count k k ∧ c.columnSum top k = c.count k k := by
  have row := count_le_rowSum hk (c := c) k
  have column := count_le_columnSum hk (c := c) k
  have ne : (c.rowSum top k : Rat) + c.columnSum top k ≠ 0 := by positivity
  rw [rate, div_eq_one_iff_eq ne]
  norm_cast
  omega

variable (size : c.side - 1 = top)
include size

theorem macroF1_nonneg : 0 ≤ (c.macroF1 : Rat) := by
  rw [macroF1_eq size]
  exact div_nonneg (Finset.sum_nonneg fun k _ => c.rate_nonneg top k) (Nat.cast_nonneg _)

theorem macroF1_le_one : (c.macroF1 : Rat) ≤ 1 := by
  rw [macroF1_eq size]
  refine div_le_one_of_le₀ ?_ (Nat.cast_nonneg _)
  have le := Finset.sum_le_card_nsmul c.occurring.toFinset (c.rate top) 1 fun k hk =>
    rate_le_one ((mem_toFinset_occurring size).mp hk).left
  rwa [nsmul_one] at le

theorem macroF1_eq_zero : (c.macroF1 : Rat) = 0 ↔ ∀ k ∈ Finset.Icc 1 top, c.count k k = 0 := by
  rw [macroF1_eq size, div_eq_zero_iff]
  constructor
  case mp =>
    intro none k hk
    have sum : ∑ k ∈ c.occurring.toFinset, c.rate top k = 0 := by
      obtain sum | empty := none
      case inl => exact sum
      case inr => rw [Finset.card_eq_zero.mp (Nat.cast_eq_zero.mp empty), Finset.sum_empty]
    by_cases occurs : 0 < c.rowSum top k
    case pos =>
      have scored := (Finset.sum_eq_zero_iff_of_nonneg fun k _ => c.rate_nonneg top k).mp sum k
        ((mem_toFinset_occurring size).mpr ⟨hk, occurs⟩)
      exact (rate_eq_zero occurs).mp scored
    case neg => exact count_eq_zero_of_not_occurs hk occurs
  case mpr =>
    intro none
    refine .inl (Finset.sum_eq_zero fun k hk => ?_)
    have ⟨hk, occurs⟩ := (mem_toFinset_occurring size).mp hk
    exact (rate_eq_zero occurs).mpr (none k hk)

theorem macroF1_eq_one :
    (c.macroF1 : Rat) = 1 ↔ (∃ k ∈ Finset.Icc 1 top, 0 < c.rowSum top k) ∧
      ∀ t ∈ Finset.Icc 1 top, ∀ p ∈ Finset.Icc 1 top, t ≠ p → c.count t p = 0 := by
  have mem {k : Nat} := mem_toFinset_occurring (k := k) size
  have count : (c.occurring.toFinset.card : Rat) = ∑ k ∈ c.occurring.toFinset, (1 : Rat) := by
    rw [Finset.sum_const, nsmul_one]
  rw [macroF1_eq size]
  constructor
  case mp =>
    intro one
    have ne : (c.occurring.toFinset.card : Rat) ≠ 0 := fun he => by
      rw [he, div_zero] at one
      exact zero_ne_one one
    have ⟨k, hk⟩ := Finset.card_ne_zero.mp (Nat.cast_ne_zero.mp ne)
    refine ⟨⟨k, mem.mp hk⟩, fun t ht p hp different => ?_⟩
    by_cases occurs : 0 < c.rowSum top t
    case pos =>
      -- No score is above one, so all of them are one if their mean is.
      have all := (Finset.sum_eq_sum_iff_of_le fun k hk => rate_le_one (mem.mp hk).left).mp
        (((div_eq_one_iff_eq ne).mp one).trans count)
      have only := (rate_eq_one ht occurs).mp (all t (mem.mpr ⟨ht, occurs⟩))
      exact count_eq_zero_of_rowSum ht hp different.symm only.left
    case neg => exact count_eq_zero_of_not_occurs hp occurs
  case mpr =>
    intro ⟨⟨k, first⟩, diagonal⟩
    have ne : (c.occurring.toFinset.card : Rat) ≠ 0 :=
      Nat.cast_ne_zero.mpr (Finset.card_ne_zero_of_mem (mem.mpr first))
    rw [div_eq_one_iff_eq ne, count]
    refine Finset.sum_congr rfl fun k hk => ?_
    have ⟨hk, occurs⟩ := mem.mp hk
    refine (rate_eq_one hk occurs).mpr ⟨?row, ?column⟩
    case row =>
      exact Finset.sum_eq_single_of_mem k hk fun p hp ne => diagonal k hk p hp ne.symm
    case column =>
      exact Finset.sum_eq_single_of_mem k hk fun t ht ne => diagonal t ht k hk ne

end Exact

-- The loss in any numbers.
def lossIn {α : Type} [Scale α] [Sub α] [OfScientific α] (c : Confusion) : α :=
  1.0 - c.macroF1

theorem loss_eq (c : Confusion) : c.loss = c.lossIn :=
  rfl

-- What there is to say about the scores of a table for the labels up to `top`.
structure Scored (c : Confusion) (top : Nat) : Prop where
  listed   {α : Type} [Scale α] {k : Nat} :
    k ∈ (c.perLabel (α := α)).map Prod.fst ↔ (1 ≤ k ∧ k ≤ top) ∧ 0 < c.rowSum top k
  distinct {α : Type} [Scale α] : ((c.perLabel (α := α)).map Prod.fst).Nodup
  divided  {α : Type} [Scale α] {zero : α → Bool} : Fair zero (c.blockSum top) →
    (c.perLabel : List (Nat × Guarded zero)) = c.perLabel.map (Prod.map id .sure) ∧
    (c.macroF1 : Guarded zero) = .sure c.macroF1
  fair     : Fair (fun x : Rat => x == 0) (c.blockSum top)
  scores   : ∀ x ∈ c.perLabel (α := Rat),
    x.2 = 2 * c.count x.1 x.1 / (c.rowSum top x.1 + c.columnSum top x.1)
  correct  : ∀ k, 1 ≤ k → k ≤ top → c.count k k ≤ min (c.rowSum top k) (c.columnSum top k)
  macroF1  : 0 ≤ (c.macroF1 : Rat) ∧ (c.macroF1 : Rat) ≤ 1
  loss     : c.loss = c.lossIn ∧ 0 ≤ (c.lossIn : Rat) ∧ (c.lossIn : Rat) ≤ 1
  worst    : (c.macroF1 : Rat) = 0 ↔ ∀ k, 1 ≤ k → k ≤ top → c.count k k = 0
  best     : (c.macroF1 : Rat) = 1 ↔ (∃ k, 1 ≤ k ∧ k ≤ top ∧ 0 < c.rowSum top k) ∧
    ∀ t p, 1 ≤ t → t ≤ top → 1 ≤ p → p ≤ top → t ≠ p → c.count t p = 0

theorem scored {c : Confusion} {top : Nat} (size : c.side - 1 = top) : c.Scored top where
  listed := by
    intro α _ k
    rw [map_fst_perLabel, mem_occurring size, Finset.mem_Icc]
  distinct := by
    intro α _
    rw [map_fst_perLabel]
    exact c.nodup_occurring
  divided fair := ⟨perLabel_sure size fair, macroF1_sure size fair⟩
  fair := fair_rat _
  scores := by
    intro x hx
    obtain ⟨k, hk, rfl⟩ := List.mem_map.mp hx
    exact f1Of_eq size ((mem_occurring size).mp hk).left
  correct k one_le le :=
    have hk := Finset.mem_Icc.mpr ⟨one_le, le⟩
    le_min (count_le_rowSum hk k) (count_le_columnSum hk k)
  macroF1 := ⟨macroF1_nonneg size, macroF1_le_one size⟩
  loss := by
    have nonneg := macroF1_nonneg size
    have le_one := macroF1_le_one size
    refine ⟨c.loss_eq, ?_⟩
    norm_num [lossIn]
    exact ⟨le_one, nonneg⟩
  worst := by
    rw [macroF1_eq_zero size]
    simp only [Finset.mem_Icc, and_imp]
  best := by
    rw [macroF1_eq_one size]
    simp only [Finset.mem_Icc, and_imp, and_assoc]
    exact and_congr_right fun _ =>
      ⟨fun h t p ht ht' => h t ht ht' p, fun h t ht ht' p => h t p ht ht'⟩

-- After whatever calls, the cells hold what was counted there since the last reset, and the scores are
-- well defined. Labels may count from the end, and those outside of the table change nothing.
theorem scored_after {labels : Int} {start : Confusion} (made : ofLabels labels = .ok start)
    (calls : List Call) :
    (∀ t p, (start.after calls).count t p =
      calls.foldl (fun n call => call.tally (labels + 1).toNat t p n) 0) ∧
    (start.after calls).Scored labels.toNat := by
  have ⟨side, zeros⟩ := ofLabels_spec made
  have ⟨side', count⟩ := start.after_spec calls
  refine ⟨fun t p => ?_, scored ?_⟩
  case refine_1 => rw [count, side, zeros]
  case refine_2 => omega

-- The last labels of a table are also its first from the end. Row and column zero do not count.
theorem scored_after_sample :
    let calls : List Call :=
      [.add 2 1, .reset, .add 1 1, .add (-2) 2, .add 2 (-1), .add 3 1, .add 0 1, .add 1 0]
    let c := (ofSide 3).after calls
    ofLabels 2 = .ok (ofSide 3) ∧ c.Scored 2 ∧ c.block = [[1, 1], [0, 1]] ∧
      c.perLabel = [(1, (2 / 3 : Rat)), (2, 2 / 3)] ∧ c.lossIn = (1 / 3 : Rat) := by
  intro calls c
  have ⟨_, scored⟩ := scored_after (rfl : ofLabels 2 = .ok (ofSide 3)) calls
  exact ⟨rfl, scored, by decide +kernel, by decide +kernel, by decide +kernel⟩

end Confusion
end CollectiveLabeling
