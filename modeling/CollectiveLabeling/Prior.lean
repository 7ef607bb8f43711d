import CollectiveLabeling.Index
import CollectiveLabeling.Step

/-!
How often each label has been seen, over the whole life of a task.

Every label starts with one sighting, zero included. The inverse-frequency weight of a label is
reported and not applied.
-/

namespace CollectiveLabeling

structure Prior where
  labels : Int
  counts : Array Nat
  total : Nat

namespace Prior

def ofLabels (labels : Int) : Except Fault Prior :=
  if labels < -1 then .error (.invalid .negativeSize)
  else .ok { labels, counts := Array.replicate (labels + 1).toNat 1, total := (labels + 1).toNat }

def bump (p : Prior) (place : Nat) : Prior :=
  { p with counts := p.counts.modify place (· + 1), total := p.total + 1 }

def observe (label : Int) : Step Prior Unit := do
  let p ← get
  match Index.place? p.counts.size label with
  | some place => set (p.bump place)
  | none => throw .outOfRange

def weight (p : Prior) (label : Int) : Except Fault Float :=
  match (Index.place? p.counts.size label).bind (p.counts[·]?) with
  | some count => .ok (Float.ofNat p.total / Float.ofNat count / Float.ofInt (max p.labels 1))
  | none => .error .outOfRange

end Prior
end CollectiveLabeling
