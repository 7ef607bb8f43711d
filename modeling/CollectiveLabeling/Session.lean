import CollectiveLabeling.Labeling

/-!
A labeling at work on a shelf of episodes.

The records of the episode that is set up are worked on in its graph; after every run they go back to
their place on the shelf.
-/

namespace CollectiveLabeling

structure Session (σ : Type) where
  scene : Scene σ
  shelf : Array (List Record)
  -- The place of the episode that is set up.
  current : Option Nat := none

-- The steps of a labeling's life; an episode that is on no place of the shelf is empty.
inductive Move where
  | setup (episode : Option Nat)
  | run
  | takedown
  | finish

namespace Session

variable {σ : Type}

def episode (s : Session σ) (place : Option Nat) : List Record :=
  ((place.bind (s.shelf[·]?))).getD []

-- Puts the records that are worked on back to their place.
def shelve (s : Session σ) : Session σ :=
  match s.current, s.scene.labeling.frame with
  | some place, some frame => { s with shelf := s.shelf.setIfInBounds place frame.graph.records }
  | _, _ => s

def onScene {α : Type} (x : Step (Scene σ) α) : Step (Session σ) α :=
  Step.within Session.scene (fun scene s => { s with scene }) x

def setup (place : Option Nat) : Step (Session σ) Unit := do
  let records := (← get).episode place
  onScene (Scene.setup records)
  modify fun s => { s with current := place }

def run [Decider σ] : Step (Session σ) (Array Int) :=
  Step.afterwards (onScene Scene.run) shelve

def takedown : Step (Session σ) Unit := do
  onScene Scene.takedown
  modify fun s => { s with current := none }

def finish : Step (Session σ) Unit :=
  onScene Scene.finish

-- Makes a move; only a run answers with labels.
def move [Decider σ] : Move → Step (Session σ) (Option (Array Int))
  | .setup place => do setup place; return none
  | .run => some <$> run
  | .takedown => do takedown; return none
  | .finish => do finish; return none

end Session
end CollectiveLabeling
