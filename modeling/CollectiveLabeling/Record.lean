import CollectiveLabeling.FeatureSpace
import CollectiveLabeling.Keyed
import CollectiveLabeling.Decimal.Numeral

/-!
The records of an episode.

A record with at most one cost is a node, its cost naming its label; one with more is an edge, its
costs naming its members. The features are filed by namespace, and `active` lists the namespaces the
model goes through, in order.
-/

namespace CollectiveLabeling

-- A number as it was given: at once, or as text still to be read.
inductive Written (α : Type) where
  | value (x : α)
  | text (s : String)

def Written.int : Written Int → Except Fault Int
  | value n => .ok n
  | text s => match Decimal.readInt s with
    | .ok n => .ok n
    | .error .malformed => .error (.invalid (.wholeNumber s))
    | .error (.tooLong digits) => .error (.invalid (.tooManyDigits Decimal.digitLimit digits))

def Written.float : Written Float → Except Fault Float
  | value x => .ok x
  | text s => match Decimal.readFloat s with
    | some x => .ok x
    | none => .error (.invalid (.number s))

structure Feature where
  value : Float
  bucket : Int

structure Record where
  costs : List (Int × Float) := []
  features : Keyed (List Feature) := []
  active : List String := []
  squares : Keyed Float := []
  total : Float := 0.0
  count : Int := 0

namespace Record

def sumOfSquares (fs : List Feature) : Float :=
  fs.foldl (fun sum f => sum + f.value * f.value) 0.0

-- Costs and features as they are given, before the features are placed.
structure Source where
  costs : List (Written Int × Written Float) := []
  features : List (String × List (Written Int × Written Float)) := []

def readCost (cost : Written Int × Written Float) : Except Fault (Int × Float) := do
  let c ← cost.1.int
  let w ← cost.2.float
  return (c, w)

def readFeature (space : FeatureSpace) (entry : Written Int × Written Float) :
    Except Fault Feature := do
  let x ← entry.2.float
  let id ← entry.1.int
  return ⟨x, space.place id⟩

def extend (r : Record) (name : String) (fs : List Feature) : Record :=
  { r with
    features := r.features.put name fs
    active := r.active ++ [name]
    squares := r.squares.put name (sumOfSquares fs)
    total := r.total + sumOfSquares fs
    count := r.count + fs.length }

def readNamespace (space : FeatureSpace) (r : Record)
    (entry : String × List (Written Int × Written Float)) : Except Fault Record := do
  if entry.1.length ≠ 1 then throw (.invalid (.namespaceName entry.1))
  let fs ← entry.2.mapM (readFeature space)
  return r.extend entry.1 fs

def ofSource (space : FeatureSpace) (source : Source) : Except Fault Record := do
  let costs ← source.costs.mapM readCost
  source.features.foldlM (readNamespace space) { costs }

def isEdge (r : Record) : Bool :=
  1 < r.costs.length

def isUnlabeled (r : Record) : Bool :=
  r.costs.isEmpty

-- Zero stands for no label.
def label (r : Record) : Int :=
  match r.costs with
  | [] => 0
  | (c, _) :: _ => c

-- The node numbers an edge refers to, counted from zero.
def members (r : Record) : List Int :=
  r.costs.map fun (c, _) => c - 1

def featuresOf (r : Record) (name : String) : List Feature :=
  (r.features.get? name).getD []

-- The features the model goes through.
def visits (r : Record) : List Feature :=
  r.active.flatMap r.featuresOf

def visitsFrom (r : Record) (offset : Int) : List Feature :=
  r.visits.map fun f => { f with bucket := f.bucket + offset }

end Record
end CollectiveLabeling
