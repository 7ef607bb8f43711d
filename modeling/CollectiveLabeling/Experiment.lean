import CollectiveLabeling.Apprentice
import CollectiveLabeling.Arguments
import CollectiveLabeling.Mean
import CollectiveLabeling.Planted
import CollectiveLabeling.Station

/-!
Training and testing an apprentice on synthetic episodes.

All episodes are made beforehand. The training episodes are worked through once per epoch; then
training is switched off and each test episode is labeled once.
-/

namespace CollectiveLabeling

-- The picture of a confusion matrix that is to be drawn.
structure Picture where
  confusion : Confusion
  path : String
  title : String

-- An episode as the arguments ask for it.
structure Commission where
  nodes : Setting Int
  labels : Setting Int
  pIn : Setting Float
  pOut : Setting Float
  noise : Setting Float
  hyperedges : Bool
  seed : Int

-- The request that a commission with nothing left blank amounts to.
def Commission.request (c : Commission) : Except Fault Planted.Request := do
  return {
    labels := ← c.labels.value
    nodes := ← c.nodes.value
    pIn := ← c.pIn.value
    pOut := ← c.pOut.value
    noise := ← c.noise.value
    hyperedges := c.hyperedges
    seed := c.seed }

-- What an experiment leaves behind.
structure Desk where
  station : Station
  asked : Array Commission := #[]
  pictures : Array Picture := #[]

-- Where episodes come from.
abbrev Supply := FeatureSpace → Commission → Except Fault (List Record)

-- How pictures are put into files.
abbrev Painter := Picture → Step Files Unit

-- Writes a text that stands for the picture into its file. What stood there is gone.
def Painter.ofText (text : Picture → String) : Painter := fun p => do
  Files.truncate p.path
  Files.overwrite p.path (text p)

-- An experiment under way.
structure Trial where
  desk : Desk
  session : Session Apprentice

namespace Plan

def truth (b : Bool) : String :=
  (Shown.truth b).toText

def summary (p : Plan) : String :=
  s!"GraphTaskConfig(num_loops={p.passes}, use_structure={truth p.useStructure}, " ++
    s!"separate_learners={truth p.separateLearners})"

end Plan

namespace Experiment

-- The seeds of the test episodes lie this far behind those of the training episodes.
def testOffset : Int := 10000

def defaultLog (date : Date) : String :=
  "logs/graph_" ++ date.compact ++ ".txt"

def onStation {α : Type} (x : Step Station α) : Step Desk α :=
  Step.within Desk.station (fun station d => { d with station }) x

def onDesk {α : Type} (x : Step Desk α) : Step Trial α :=
  Step.within Trial.desk (fun desk t => { t with desk }) x

def onSession {α : Type} (x : Step (Session Apprentice) α) : Step Trial α :=
  Step.within Trial.session (fun session t => { t with session }) x

def onHost (f : Host Apprentice → Host Apprentice) : Step Trial Unit :=
  modify fun t => { t with session := { t.session with scene := { t.session.scene with
    host := f t.session.scene.host } } }

def commission (a : Arguments) (seed : Int) : Commission where
  nodes := a.nodes
  labels := a.labels
  pIn := a.pIn
  pOut := a.pOut
  noise := a.noise
  hyperedges := a.hyperedges
  seed := seed

def obtain (supply : Supply) (space : FeatureSpace) (c : Commission) : Step Desk (List Record) := do
  modify fun d => { d with asked := d.asked.push c }
  Step.lift (supply space c)

-- So many episodes with successive seeds.
def episodes (supply : Supply) (space : FeatureSpace) (a : Arguments) (count : Setting Int)
    (offset : Int) : Step Desk (List (List Record)) := do
  let count ← Step.lift count.value
  (List.range count.toNat).mapM fun (i : Nat) => do
    let seed ← Step.lift a.seed.value
    obtain supply space (commission a (seed + offset + i))

-- Moves the entries of the labeling into the log file.
def fileEntries (file : String) : Step Trial Unit := do
  let entries := (← get).session.scene.labeling.entries
  modify fun t => { t with session := { t.session with scene := { t.session.scene with
    labeling := { t.session.scene.labeling with entries := #[] } } } }
  entries.toList.forM fun e => onDesk (onStation (Station.record (some file) e false))

-- Works through the episodes at the given places and gives their losses.
def play (file : String) (places : List Nat) : Step Trial (List Float) := do
  let losses ← places.mapM fun place =>
    Step.ensuring (onSession (Session.runEpisode (some place))) (fileEntries file)
  return losses.filterMap id

def epoch (file : String) (places : List Nat) (started : Float) (i : Nat) : Step Trial Unit := do
  let losses ← play file places
  let elapsed ← onDesk (onStation (Step.within Station.clock (fun clock s => { s with clock })
    (Clock.elapsed started)))
  onDesk (onStation (Station.recordFields (some file) "TRAIN" [("epoch", .count i),
    ("mean_loss", .text (Decimal.places 4 (Mean.mean losses))), ("t", seconds 2 elapsed)]))

def train (file : String) (places : List Nat) (epochs : Setting Int) : Step Trial Unit := do
  let started ← onDesk (onStation (Step.within Station.clock (fun clock s => { s with clock })
    Clock.read))
  let epochs ← Step.lift epochs.value
  (List.range epochs.toNat).forM (epoch file places started)

-- Puts what the host has written into the file of predictions.
def closePredictions (path : String) : Step Trial Unit := do
  let written := (← get).session.scene.host.output.getD ""
  onHost fun h => { h with output := none }
  onDesk (onStation (Station.within (Files.overwrite path written)))

-- Tests without training; the predictions are written even if a test fails.
def test (file : String) (predictions : Option String) (places : List Nat) : Step Trial (List Float) := do
  onHost fun h => { h with mind := { h.mind with training := false } }
  match predictions with
  | none => play file places
  | some path =>
    onDesk (onStation (Station.within (Files.truncate path)))
    onHost fun h => { h with output := some "" }
    Step.ensuring (play file places) (closePredictions path)

def pictureTitle (loss : Float) : String :=
  "last test episode (loss=" ++ Decimal.places 3 loss ++ ")"

-- Puts a picture into its file and keeps it.
def put (paint : Painter) (picture : Picture) : Step Desk Unit := do
  modify fun d => { d with pictures := d.pictures.push picture }
  onStation (Station.within (paint picture))

-- Draws the last test.
def draw (paint : Painter) (plot : Option String) (losses : List Float) : Step Trial Unit := do
  match plot, losses.getLast?, (← get).session.scene.labeling.confusion with
  | some path, some loss, some confusion => onDesk (put paint ⟨confusion, path, pictureTitle loss⟩)
  | _, _, _ => return

def summary (plan : Plan) (losses : List Float) : String :=
  "Test loss (1 - macro F1): " ++ Decimal.places 4 (Mean.mean losses) ++
    s!" over {losses.length} episodes\n" ++
    s!"Passes={plan.passes} structure={Plan.truth plan.useStructure} " ++
    s!"separate_learners={Plan.truth plan.separateLearners}"

def conduct (paint : Painter) (a : Arguments) (plan : Plan) (file : String)
    (trainCount testCount : Nat) : Step Trial Unit := do
  train file (List.range trainCount) a.epochs
  let losses ← test file (Arguments.path? a.predictions) ((List.range testCount).map (trainCount + ·))
  draw paint (Arguments.path? a.plot) losses
  onDesk (onStation (Station.record (some file) { tag := some "SUMMARY", text := summary plan losses } true))
  onSession Session.finish
  fileEntries file

-- Sets up the apprentice and its labeling for the given episodes.
def prepare (a : Arguments) (plan : Plan) (space : FeatureSpace) (clock : Clock)
    (shelf : List (List Record)) : Except Fault (Session Apprentice) := do
  let labels ← a.labels.value
  let policy ← Perceptron.create labels space 1 1.0
  let (labeling, host) := (Labeling.start labels (some plan) "graph").outcome
    ({ mind := { policy } } : Host Apprentice)
  return { scene := { labeling := ← labeling, host, clock }, shelf := shelf.toArray }

-- The path of the log.
def logPath (a : Arguments) (date : Date) : Except Fault String :=
  match a.logFile with
  | some file => file.value
  | none => .ok (defaultLog date)

-- The layout of the buckets that the arguments ask for.
def layout (a : Arguments) : Except Fault FeatureSpace := do
  let bits ← a.bits.value
  FeatureSpace.ofSettings { bits }

def run (supply : Supply) (paint : Painter) (a : Arguments) : Step Desk Unit := do
  let clock := (← get).station.clock
  let plan ← Step.lift a.plan.plan
  let space ← Step.lift (layout a)
  let file ← Step.lift (logPath a clock.date)
  onStation (Station.record (some file)
    { tag := some "RUN", text := "[main] starting run | " ++ plan.summary } false)
  let training ← episodes supply space a a.trainEpisodes 0
  let testing ← episodes supply space a a.testEpisodes testOffset
  let session ← Step.lift (prepare a plan space clock (training ++ testing))
  fun desk => match conduct paint a plan file training.length testing.length ⟨desk, session⟩ with
    | .ok _ t => .ok () t.desk
    | .error f t => .error f t.desk

-- How a program run ends.
inductive Ending where
  | done
  | refused (e : CommandLine.Exit)
  | failed (f : Fault)

def main (supply : Supply) (paint : Painter) (arguments : List String) (desk : Desk) :
    Ending × Desk :=
  match Arguments.parse arguments with
  | .error e => (.refused e, desk)
  | .ok a => match run supply paint a desk with
    | .ok _ desk => (.done, desk)
    | .error f desk => (.failed f, desk)

end Experiment
end CollectiveLabeling
