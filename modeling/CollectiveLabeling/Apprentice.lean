import CollectiveLabeling.Perceptron
import CollectiveLabeling.Session

/-!
A host that learns to decide by imitation.

It decides by the best score. In training it takes a step toward the oracle's label and answers with
that label. The labels of earlier decisions are remembered by tag, so that later queries can refer to
them.
-/

namespace CollectiveLabeling

structure Apprentice where
  policy : Perceptron Float32
  training : Bool := true
  wantsInput : Bool := true
  memory : Std.TreeMap Int Int compare := ∅

namespace Apprentice

-- The labels of the decisions a query refers to, as far as they are remembered.
def resolve (a : Apprentice) (conditions : List (Int × String)) : List (String × Int) :=
  conditions.filterMap fun (tag, name) => a.memory[tag]?.map (name, ·)

def material (a : Apprentice) (q : Query) : Record :=
  if a.wantsInput then q.input.getD {} else {}

def inputFor (a : Apprentice) (q : Query) : Except Fault (List (Int × Float32)) := do
  let input ← Perceptron.featurize a.policy.space (a.material q) (a.resolve q.conditions)
  return input.map fun (row, value) => ((row : Int), value.toFloat32)

def knowsLearner (a : Apprentice) (id : Int) : Bool :=
  0 ≤ id && id < a.policy.learners.size

def predicted (a : Apprentice) (learner : Int) (input : List (Int × Float32)) : Except Fault Int := do
  let scores ← a.policy.scores learner input
  match Perceptron.best scores.toList with
  | some place => return place + 1
  | none => throw .outOfRange

def onPolicy {α : Type} (x : Step (Perceptron Float32) α) : Step Apprentice α :=
  Step.within Apprentice.policy (fun policy a => { a with policy }) x

def remember (tag label : Int) : Step Apprentice Unit :=
  modify fun a => { a with memory := a.memory.insert tag label }

def decide (q : Query) : Step Apprentice Int := do
  let a ← get
  let learner := q.learner.getD 0
  if !a.knowsLearner learner then
    throw (Fault.raised (.invalid (.learner learner a.policy.learners.size)))
  let input ← Step.lift (a.inputFor q)
  let predicted ← Step.lift (a.predicted learner input)
  let label ← match a.training, q.oracle with
    | true, some oracle => do
      onPolicy (Perceptron.update learner input oracle predicted)
      pure oracle
    | _, _ => pure predicted
  remember q.tag label
  return label

instance : Decider Apprentice where
  space a := some a.policy.space
  wantsInput := Apprentice.wantsInput
  resize count a := { a with policy := a.policy.resize count }
  decide := decide

end Apprentice

namespace Session

def forget : Step (Session Apprentice) Unit :=
  modify fun s => { s with scene := { s.scene with host := { s.scene.host with
    mind := { s.scene.host.mind with memory := ∅ } } } }

-- Works through one episode and gives its loss. The memory starts out empty, and whatever comes of
-- the run the episode is taken down.
def runEpisode (place : Option Nat) : Step (Session Apprentice) (Option Float) := do
  forget
  let before := (← get).scene.host.losses.size
  setup place
  let _ ← Step.afterwards run fun s => ((takedown : Step (Session Apprentice) Unit).outcome s).2
  let losses := (← get).scene.host.losses
  return if before < losses.size then losses.back? else none

end Session
end CollectiveLabeling
