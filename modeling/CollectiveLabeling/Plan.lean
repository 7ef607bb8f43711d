import CollectiveLabeling.Fault

/-!
How a labeling is carried out: the number of passes over an episode, whether the labels of neighbors
become features, and whether each pass has a learner of its own.
-/

namespace CollectiveLabeling

-- A single pass has nothing to separate.
structure Plan where
  passes : Nat
  useStructure : Bool
  separateLearners : Bool
  passes_pos : 1 ≤ passes := by decide
  two_le_of_separate : separateLearners → 2 ≤ passes := by decide

namespace Plan

structure Settings where
  passes : Int := 2
  useStructure : Bool := true
  separateLearners : Bool := false

-- No passes at all count as one.
def ofSettings (s : Settings) : Except Fault Plan :=
  if s.passes < 0 then .error (Fault.raised (.invalid (.loopCount s.passes)))
  else .ok {
    passes := max 1 s.passes.toNat
    useStructure := s.useStructure
    separateLearners := s.separateLearners && 2 ≤ s.passes
    passes_pos := by omega
    two_le_of_separate := fun h => by
      have several : 2 ≤ s.passes := of_decide_eq_true (Bool.and_eq_true_iff.mp h).2
      omega }

def standard : Plan where
  passes := 2
  useStructure := true
  separateLearners := false

theorem ofSettings_default : ofSettings {} = .ok standard :=
  rfl

end Plan
end CollectiveLabeling
