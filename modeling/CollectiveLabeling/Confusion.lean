import CollectiveLabeling.Index
import CollectiveLabeling.Step

/-!
Counts of true labels against predicted ones, and the macro F1 score.

Row and column zero are kept but do not take part in the score. A label is scored if it occurs among
the true ones.
-/

namespace CollectiveLabeling

-- Numbers in which scores are computed.
class Scale (α : Type) extends Add α, Mul α, Div α where
  ofCount : Nat → α

instance : Scale Float where
  ofCount := Float.ofNat

instance : Scale Rat where
  ofCount n := n

structure Confusion where
  side : Nat
  cells : Vector (Vector Nat side) side

namespace Confusion

def ofSide (side : Nat) : Confusion where
  side := side
  cells := Vector.replicate side (Vector.replicate side 0)

def ofLabels (labels : Int) : Except Fault Confusion :=
  if labels < -1 then .error (.invalid .negativeSize) else .ok (ofSide (labels + 1).toNat)

-- Without even a row zero the label count is below zero.
def labels (c : Confusion) : Int :=
  c.side - 1

def clear (c : Confusion) : Confusion :=
  ofSide c.side

def bump (c : Confusion) (t p : Fin c.side) : Confusion :=
  { c with cells := c.cells.set t ((c.cells.get t).set p ((c.cells.get t).get p + 1)) }

def add (trueLabel predicted : Int) : Step Confusion Unit := do
  let c ← get
  match Index.fin? c.side trueLabel, Index.fin? c.side predicted with
  | some t, some p => set (c.bump t p)
  | _, _ => throw .outOfRange

def count (c : Confusion) (t p : Nat) : Nat :=
  ((c.cells[t]?).bind (·[p]?)).getD 0

def labelRange (c : Confusion) : List Nat :=
  (List.range (c.side - 1)).map (· + 1)

def sumOf (counts : List Nat) : Nat :=
  counts.foldr (· + ·) 0

def trueCount (c : Confusion) (t : Nat) : Nat :=
  sumOf (c.labelRange.map (c.count t))

def predictedCount (c : Confusion) (p : Nat) : Nat :=
  sumOf (c.labelRange.map (c.count · p))

def total (c : Confusion) : Nat :=
  sumOf (c.cells.toList.map fun row => sumOf row.toList)

-- The block of the labels proper.
def block (c : Confusion) : List (List Nat) :=
  c.labelRange.map fun t => c.labelRange.map (c.count t)

section Score

variable {α : Type} [Scale α]

-- The harmonic mean of precision and recall.
def f1 (correct trues predictions : Nat) : α :=
  if correct = 0 then Scale.ofCount 0
  else
    let ofPredicted : α := Scale.ofCount correct / Scale.ofCount predictions
    let ofTrue : α := Scale.ofCount correct / Scale.ofCount trues
    Scale.ofCount 2 * ofPredicted * ofTrue / (ofPredicted + ofTrue)

def f1Of (c : Confusion) (label : Nat) : α :=
  f1 (c.count label label) (c.trueCount label) (c.predictedCount label)

def occurring (c : Confusion) : List Nat :=
  c.labelRange.filter (c.trueCount · ≠ 0)

def perLabel (c : Confusion) : List (Nat × α) :=
  c.occurring.map fun k => (k, c.f1Of k)

-- The plain mean over the labels that occur, zero if there are none.
def macroF1 (c : Confusion) : α :=
  if c.occurring.isEmpty then Scale.ofCount 0
  else (c.occurring.map c.f1Of).foldl (· + ·) (Scale.ofCount 0) / Scale.ofCount c.occurring.length

end Score

-- The loss of a run.
def loss (c : Confusion) : Float :=
  1.0 - c.macroF1

end Confusion

-- Labels as one line, parted by spaces.
def labelLine (labels : List Int) : String :=
  " ".intercalate (labels.map toString)

-- The line of labels that are given. Those of a run lie within its tables and can always be written.
def formatLabels (labels : List Int) : Except Fault String :=
  if labels.all Decimal.writable then .ok (labelLine labels)
  else .error (.invalid (.unwritable Decimal.digitLimit))

end CollectiveLabeling
