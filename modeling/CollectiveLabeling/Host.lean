import CollectiveLabeling.Record
import CollectiveLabeling.Step

/-!
What a labeling asks of its host.

The host decides labels, one query at a time, and takes note of the loss of each run. It says whether
it looks at the records at all; if it does not, nothing is prepared in them for it.
-/

namespace CollectiveLabeling

-- One decision: the tag it is remembered by, what may be looked at, and the earlier decisions it
-- depends on, by tag and name. The oracle is the label that is true.
structure Query where
  tag : Int
  input : Option Record := none
  oracle : Option Int := none
  learner : Option Int := none
  conditions : List (Int × String) := []

class Decider (σ : Type) where
  space : σ → Option FeatureSpace
  wantsInput : σ → Bool
  resize : Int → σ → σ
  decide : Query → Step σ Int

structure Host (σ : Type) where
  mind : σ
  losses : Array Float := #[]
  -- The text written so far, if there is anywhere to write it.
  output : Option String := none

namespace Host

variable {σ : Type}

def reportLoss (h : Host σ) (loss : Float) : Host σ :=
  { h with losses := h.losses.push loss }

def write (h : Host σ) (text : String) : Host σ :=
  { h with output := h.output.map (· ++ text) }

end Host
end CollectiveLabeling
