import CollectiveLabeling.Index
import CollectiveLabeling.Record
import CollectiveLabeling.Step
import Std.Data.TreeMap

/-!
Linear scores over hashed features.

Each learner has a weight for every row and label and a bias for every label. The active features of
a record select rows by their buckets, and each condition, a name with a label, selects one more.
Learning moves weight from the label that was predicted to the one that was meant.
-/

namespace CollectiveLabeling

-- Only rows that have been written are kept; all others are zero.
structure Learner (α : Type) (labels : Nat) where
  weights : Std.TreeMap Nat (Vector α labels) compare
  bias : Vector α labels

structure Perceptron (α : Type) where
  labels : Nat
  space : FeatureSpace
  rate : α
  learners : Array (Learner α labels)

section Arithmetic

variable {α : Type} [OfNat α 0] [Add α] [Sub α] [Mul α] [Neg α] {labels : Nat}

namespace Learner

def zero : Learner α labels where
  weights := ∅
  bias := Vector.replicate labels 0

def weight (l : Learner α labels) (row : Nat) : Vector α labels :=
  l.weights.getD row (Vector.replicate labels 0)

def addWeight (l : Learner α labels) (row : Nat) (label : Fin labels) (delta : α) :
    Learner α labels :=
  { l with weights := l.weights.insert row ((l.weight row).set label ((l.weight row).get label + delta)) }

def addBias (l : Learner α labels) (label : Fin labels) (delta : α) : Learner α labels :=
  { l with bias := l.bias.set label (l.bias.get label + delta) }

def subBias (l : Learner α labels) (label : Fin labels) (delta : α) : Learner α labels :=
  { l with bias := l.bias.set label (l.bias.get label - delta) }

-- The sum of the weights of the given rows, each times its value.
def weighted (l : Learner α labels) (input : List (Nat × α)) (label : Fin labels) : α :=
  input.foldl (fun sum (row, value) => sum + (l.weight row).get label * value) 0

def score (l : Learner α labels) (input : List (Nat × α)) (label : Fin labels) : α :=
  if input.isEmpty then l.bias.get label else l.weighted input label + l.bias.get label

end Learner

namespace Perceptron

-- The multipliers that spread names and labels over the rows.
def nameSalt : Int := 2654435761
def labelSalt : Int := 348919043

-- The row of a condition, from the low bits of name and label.
def conditionRow (space : FeatureSpace) (name : String) (label : Int) : Except Fault Nat :=
  match name.toList with
  | [c] => .ok (((c.toNat * nameSalt) % space.rows).toNat ^^^ ((label * labelSalt) % space.rows).toNat)
  | _ => .error .notOneCharacter

-- The rows and values a record and its conditions select.
def featurize (space : FeatureSpace) (r : Record) (conditions : List (String × Int)) :
    Except Fault (List (Nat × Float)) := do
  let named ← conditions.mapM fun (name, label) => conditionRow space name label
  return r.visits.map (fun f => (space.row f.bucket, f.value)) ++ named.map fun row => (row, 1.0)

def create (labels : Int) (space : FeatureSpace) (learners : Int) (rate : α) :
    Except Fault (Perceptron α) :=
  if labels < 0 || learners < 0 then .error .negativeTable
  else .ok {
    labels := labels.toNat
    space, rate
    learners := Array.replicate learners.toNat .zero }

-- Keeps the first learners and adds empty ones as needed; there is always at least one.
def resize (p : Perceptron α) (count : Int) : Perceptron α :=
  let count := (max count 1).toNat
  if count = p.learners.size then p
  else { p with learners :=
    p.learners.take count ++ Array.replicate (count - p.learners.size) .zero }

def learnerAt (p : Perceptron α) (id : Int) : Except Fault (Fin p.learners.size) :=
  match Index.fin? p.learners.size id with
  | some i => .ok i
  | none => .error .outOfRange

def labelAt (p : Perceptron α) (place : Int) : Except Fault (Fin p.labels) :=
  match Index.fin? p.labels place with
  | some i => .ok i
  | none => .error .outOfRange

def rowAt (p : Perceptron α) (row : Int) : Except Fault Nat :=
  match Index.place? p.space.rows row with
  | some i => .ok i
  | none => .error .outOfRange

def scores (p : Perceptron α) (learner : Int) (input : List (Int × α)) :
    Except Fault (Vector α p.labels) := do
  let i ← p.learnerAt learner
  let placed ← input.mapM fun (row, value) => (·, value) <$> p.rowAt row
  return Vector.ofFn fun label => p.learners[i].score placed label

-- Pairs rows with values. One value serves all rows, and one row all values.
def spread (rows : List Int) (values : List α) : Except Fault (List (Int × α)) :=
  match rows, values with
  | [], _ => .ok []
  | rows, [value] => .ok (rows.map (·, value))
  | [row], values => .ok (values.map (row, ·))
  | rows, values =>
    if rows.length = values.length then .ok (rows.zip values) else .error .unequalLengths

-- The scores from rows and values that are yet to be paired. The rows are looked up first.
def spreadScores (p : Perceptron α) (learner : Int) (rows : List Int) (values : List α) :
    Except Fault (Vector α p.labels) := do
  let _ ← p.learnerAt learner
  let _ ← rows.mapM p.rowAt
  p.scores learner (← spread rows values)

def modifyLearner (p : Perceptron α) (i : Nat) (f : Learner α p.labels → Learner α p.labels) :
    Perceptron α :=
  { p with learners := p.learners.modify i f }

-- Changes one entry of the weight table.
def shiftWeight (learner : Int) (place : Int) (delta : α) (row : Int) : Step (Perceptron α) Unit := do
  let p ← get
  let i ← Step.lift (p.learnerAt learner)
  let row ← Step.lift (p.rowAt row)
  let label ← Step.lift (p.labelAt place)
  set (p.modifyLearner i fun l => l.addWeight row label delta)

def raiseBias (learner : Int) (place : Int) : Step (Perceptron α) Unit := do
  let p ← get
  let i ← Step.lift (p.learnerAt learner)
  let label ← Step.lift (p.labelAt place)
  set (p.modifyLearner i fun l => l.addBias label p.rate)

def lowerBias (learner : Int) (place : Int) : Step (Perceptron α) Unit := do
  let p ← get
  let i ← Step.lift (p.learnerAt learner)
  let label ← Step.lift (p.labelAt place)
  set (p.modifyLearner i fun l => l.subBias label p.rate)

-- A step toward the target label and away from the predicted one. Labels count from one.
def update (learner : Int) (input : List (Int × α)) (target predicted : Int) :
    Step (Perceptron α) Unit := do
  if target = predicted then return
  let rate := (← get).rate
  input.forM fun (row, value) => shiftWeight learner (target - 1) (rate * value) row
  input.forM fun (row, value) => shiftWeight learner (predicted - 1) (-rate * value) row
  raiseBias learner (target - 1)
  lowerBias learner (predicted - 1)

-- An update from rows and values that are yet to be paired; here one row takes only one value.
def spreadUpdate (learner : Int) (rows : List Int) (values : List α) (target predicted : Int) :
    Step (Perceptron α) Unit := do
  if target = predicted then return
  if !rows.isEmpty then
    let _ ← Step.lift ((← get).learnerAt learner)
    if values.length ≠ rows.length && values.length ≠ 1 then throw .unequalLengths
  let input ← Step.lift (spread rows values)
  update learner input target predicted

end Perceptron
end Arithmetic

namespace Perceptron

-- A score that is no number counts as the best.
def better (x y : Float32) : Bool :=
  !x.isNaN && (y.isNaN || x < y)

-- The place of the best score, the first of equals.
def best : List Float32 → Option Nat
  | [] => none
  | x :: rest =>
    some (rest.zipIdx.foldl (fun (best : Float32 × Nat) (y, i) =>
      if better best.1 y then (y, i + 1) else best) (x, 0)).2

def entries {labels : Nat} (l : Learner Float32 labels) : List (Nat × Nat × Float32) :=
  l.weights.toList.flatMap fun (row, values) =>
    (values.toList.zipIdx.filter fun (x, _) => x != 0).map fun (x, label) => (row, label, x)

-- The weights other than zero: learner, row, label and value, in that order.
def nonzero (p : Perceptron Float32) : List (Nat × Nat × Nat × Float32) :=
  p.learners.toList.zipIdx.flatMap fun (l, i) => (entries l).map (i, ·)

end Perceptron
end CollectiveLabeling
