import CollectiveLabeling.Fault

/-!
Steps on a state.

A step ends in a result or in a fault, and in a state either way: what was done before a fault stays
done.
-/

namespace CollectiveLabeling

abbrev Step (σ α : Type) := EStateM Fault σ α

namespace Step

variable {σ τ α : Type}

def lift : Except Fault α → Step σ α
  | .ok a => pure a
  | .error f => throw f

-- Takes a step on a part of the state.
def within (part : σ → τ) (withPart : τ → σ → σ) (x : Step τ α) : Step σ α := fun s =>
  match x (part s) with
  | .ok a t => .ok a (withPart t s)
  | .error f t => .error f (withPart t s)

-- Takes a step and then changes the state, whether the step succeeded or not.
def afterwards (x : Step σ α) (after : σ → σ) : Step σ α := fun s =>
  match x s with
  | .ok a t => .ok a (after t)
  | .error f t => .error f (after t)

-- Changes the state when a step fails; the fault remains.
def onFault (x : Step σ α) (after : Fault → σ → σ) : Step σ α := fun s =>
  match x s with
  | .ok a t => .ok a t
  | .error f t => .error f (after f t)

-- Takes a second step after the first, whether that succeeded or not. The first one's fault stays
-- unless the second has one of its own.
def ensuring (x : Step σ α) (second : Step σ Unit) : Step σ α := fun s =>
  match x s with
  | .ok a t => (do second; return a) t
  | .error f t => (do second; throw f) t

def outcome (x : Step σ α) (s : σ) : Except Fault α × σ :=
  match x s with
  | .ok a t => (.ok a, t)
  | .error f t => (.error f, t)

theorem lift_ok (a : α) (s : σ) : lift (.ok a) s = .ok a s :=
  rfl

end Step
end CollectiveLabeling
