import CollectiveLabeling.Host
import CollectiveLabeling.Neighborhood

/-!
A host that answers by a fixed rule and keeps the queries it was asked.
-/

namespace CollectiveLabeling

inductive Rule where
  | oracle (fallback : Int)
  | always (label : Int)
  | inTurn (labels : List Int)
  | hash (labels : Nat)

structure Script where
  rule : Rule
  -- The query at which it fails, counted from zero.
  failsAt : Option Nat := none

structure Scripted where
  space : Option FeatureSpace
  wantsInput : Bool
  script : Script
  turn : Nat := 0
  queries : Array Query := #[]
  learners : Option Int := none

namespace Script

def hashModulus : Int := 1009

-- A number in which every part of a query takes part.
def digest (q : Query) : Int :=
  let buckets := match q.input with
    | some r => r.visits.map fun (f : Feature) => f.bucket % hashModulus
    | none => []
  q.tag + 31 * (q.conditions.map Prod.fst).foldr (· + ·) 0 + buckets.foldr (· + ·) 0

def answer (s : Script) (turn : Nat) (q : Query) : Int :=
  match s.rule with
  | .oracle fallback => match q.oracle with
    | some k => if k = 0 then fallback else k
    | none => fallback
  | .always label => label
  | .inTurn labels => labels.getD (turn % labels.length) 0
  | .hash labels => digest q % labels + 1

end Script

namespace Scripted

def follow (s : Scripted) (script : Script) : Scripted :=
  { s with script, turn := 0 }

def decide (q : Query) : Step Scripted Int := do
  let s ← get
  set { s with turn := s.turn + 1, queries := s.queries.push q }
  if s.script.failsAt = some s.turn then throw .hostFailed
  return s.script.answer s.turn q

instance : Decider Scripted where
  space := Scripted.space
  wantsInput := Scripted.wantsInput
  resize count s := { s with learners := some count }
  decide := decide

end Scripted
end CollectiveLabeling
