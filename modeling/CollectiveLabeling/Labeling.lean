import CollectiveLabeling.Confusion
import CollectiveLabeling.Episode
import CollectiveLabeling.Host
import CollectiveLabeling.Hypergraph.Clique
import CollectiveLabeling.Journal
import CollectiveLabeling.Neighborhood
import CollectiveLabeling.Plan
import CollectiveLabeling.Sweep

/-!
Labeling the nodes of an episode.

An episode is set up, run and taken down. A run makes several passes over the nodes. Every node is
decided once in a pass, from whatever its neighbors hold at that moment, so that what was decided
earlier in the same pass already counts. The true labels only enter the score, and the query's
oracle.
-/

namespace CollectiveLabeling

-- An episode that is set up: its graph, the order of visit, and the label of each node. A node not
-- yet decided holds the label above the last.
structure Frame where
  graph : Hypergraph
  order : List Nat
  pred : Array Int

structure Labeling where
  labels : Nat
  plan : Plan
  name : String
  augmenter : Augmenter
  confusion : Option Confusion
  prior : Prior
  frame : Option Frame := none
  lastLoss : Option Float := none
  entries : Array Entry := #[]
  labels_pos : 1 ≤ labels := by omega

-- The part of the state that decisions change.
structure Course (σ : Type) where
  bench : Workbench
  pred : Array Int
  mind : σ

-- A labeling and the host it works for.
structure Scene (σ : Type) where
  labeling : Labeling
  host : Host σ
  clock : Clock

namespace Course

variable {σ : Type} [Decider σ]

def onBench {α : Type} (x : Step Workbench α) : Step (Course σ) α :=
  Step.within Course.bench (fun bench c => { c with bench }) x

def onMind {α : Type} (x : Step σ α) : Step (Course σ) α :=
  Step.within Course.mind (fun mind c => { c with mind }) x

def conditionName : String := "e"

def queryFor (plan : Plan) (pass n : Nat) (r : Record) (near : List (Int × Int)) : Query where
  tag := n + 1
  input := some r
  oracle := if 0 < r.label then some r.label else none
  learner := if plan.separateLearners then some (pass : Int) else none
  conditions := near.map fun (_, m) => (m + 1, conditionName)

-- Asks the host for the label of a node as it stands.
def ask (plan : Plan) (pass n : Nat) : Step (Course σ) Int := do
  let c ← get
  let r ← Step.lift (c.bench.graph.node n)
  let near ← Step.lift (c.bench.graph.neighbors n)
  onMind (Decider.decide (queryFor plan pass n r near))

-- Asks with the features of the neighborhood lent to the node, and takes them back however the host
-- answers.
def askAugmented (plan : Plan) (pass n : Nat) : Step (Course σ) Int := do
  let token ← onBench (Workbench.augment n (← get).pred)
  Step.afterwards (ask plan pass n) fun c =>
    { c with bench := ((Workbench.revert token).outcome c.bench).2 }

def decideNode (labels : Nat) (plan : Plan) (pass n : Nat) : Step (Course σ) Unit := do
  let label ←
    if Decider.wantsInput (← get).mind then askAugmented plan pass n else ask plan pass n
  if 1 ≤ label ∧ label ≤ labels then
    modify fun c => { c with pred := c.pred.setIfInBounds n label }
  else throw (Fault.raised (.defect (.answerOutside label labels n)))

def pass (labels : Nat) (plan : Plan) (order : List Nat) (i : Nat) : Step (Course σ) Unit :=
  (Sweep.direct order i).forM (decideNode labels plan i)

end Course

namespace Labeling

variable {σ : Type} [Decider σ]

-- Starts a labeling. A host without a feature space of its own gets the standard one.
def start (actions : Int) (plan : Option Plan) (name : String) : Step (Host σ) Labeling := do
  if positive : 1 ≤ actions then
    let plan := plan.getD .standard
    let space := (Decider.space (← get).mind).getD .standard
    let augmenter ← Step.lift (Augmenter.ofLabels actions space plan.useStructure)
    let confusion ← Step.lift (Confusion.ofLabels actions)
    let prior ← Step.lift (Prior.ofLabels actions)
    if plan.separateLearners then
      modify fun h => { h with mind := Decider.resize plan.passes h.mind }
    return {
      labels := actions.toNat
      plan, name, augmenter, prior
      confusion := some confusion
      labels_pos := by omega }
  else throw (Fault.raised (.invalid (.actionCount actions)))

def log (l : Labeling) (e : Entry) : Labeling :=
  { l with entries := l.entries.push e }

def logFields (l : Labeling) (event : String) (fields : List (String × Shown)) : Labeling :=
  l.log (.ofFields (l.name ++ ":" ++ event) fields)

def meanDegree (g : Hypergraph) : Float :=
  if g.nodes.isEmpty then 0.0
  else Float.ofNat ((g.adjacency.toList.map List.length).foldr (· + ·) 0) / Float.ofNat g.nodes.size

def undecided (l : Labeling) : Int :=
  l.labels + 1

def frameOf (l : Labeling) (g : Hypergraph) (order : List Nat) : Frame where
  graph := g
  order := order
  pred := Array.replicate g.nodes.size l.undecided

end Labeling

namespace Scene

variable {σ : Type}

def onLabeling (f : Labeling → Labeling) : Step (Scene σ) Unit :=
  modify fun s => { s with labeling := f s.labeling }

def onClock {α : Type} (x : Step Clock α) : Step (Scene σ) α :=
  Step.within Scene.clock (fun clock s => { s with clock }) x

def logFields (event : String) (fields : List (String × Shown)) : Step (Scene σ) Unit :=
  onLabeling fun l => l.logFields event fields

-- A defect is logged before the step is given up.
def logDefect {α : Type} (x : Step (Scene σ) α) : Step (Scene σ) α :=
  Step.onFault x fun f s => match f with
    | .defect d => { s with labeling := s.labeling.log (.ofDefect d) }
    | _ => s

-- Builds the graph of an episode; the prior takes note of it if it is accepted.
def load (records : List Record) : Step (Scene σ) Hypergraph := do
  let started ← onClock Clock.read
  let labels := (← get).labeling.labels
  let g ← Step.within (fun s => some s.labeling.prior)
    (fun prior s => { s with labeling := { s.labeling with prior := prior.getD s.labeling.prior } })
    (Episode.load (some labels) records)
  let elapsed ← onClock (Clock.elapsed started)
  onLabeling fun l => l.log (.ofFields "GRAPH" [("nodes", .count g.nodes.size),
    ("edges", .count g.edges.size), ("t_build", seconds 4 elapsed)])
  return g

-- Sets an episode up. The one set up before stays if this one is refused.
def setup (records : List Record) : Step (Scene σ) Unit := logDefect do
  let started ← onClock Clock.read
  let g ← load records
  let order ← Step.lift (Sweep.order g)
  onLabeling fun l => { l with frame := some (l.frameOf g order) }
  let elapsed ← onClock (Clock.elapsed started)
  logFields "INIT" [("nodes", .count g.nodes.size), ("edges", .count g.edges.size),
    ("components", .count g.componentCount), ("mean_deg", .real (Labeling.meanDegree g)),
    ("t_setup", seconds 4 elapsed)]

-- Takes a step of the course of the episode that is set up.
def onCourse {α : Type} (x : Step (Course σ) α) : Step (Scene σ) α := fun s =>
  match s.labeling.frame with
  | none => .error (.misuse .notSetUp) s
  | some frame =>
    Step.within
      (fun s => { bench := ⟨frame.graph, s.labeling.augmenter⟩, pred := frame.pred, mind := s.host.mind })
      (fun c s => { s with
        labeling := { s.labeling with
          augmenter := c.bench.augmenter
          frame := some { frame with graph := c.bench.graph, pred := c.pred } }
        host := { s.host with mind := c.mind } }) x s

def currentFrame : Step (Scene σ) Frame := do
  match (← get).labeling.frame with
  | some frame => return frame
  | none => throw (.misuse .notSetUp)

def currentConfusion : Step (Scene σ) Confusion := do
  match (← get).labeling.confusion with
  | some confusion => return confusion
  | none => throw .finished

-- Forgets the labels and counts of an earlier run.
def reset : Step (Scene σ) Unit := do
  let frame ← currentFrame
  let confusion ← currentConfusion
  onLabeling fun l => { l with
    confusion := some confusion.clear
    frame := some { frame with pred := Array.replicate frame.graph.nodes.size l.undecided } }

def pass [Decider σ] (i : Nat) : Step (Scene σ) Unit := do
  let started ← onClock Clock.read
  let l := (← get).labeling
  let frame ← currentFrame
  onCourse (Course.pass l.labels l.plan frame.order i)
  let elapsed ← onClock (Clock.elapsed started)
  logFields "PASS" [("loop", .count i),
    ("direction", .text (if i % 2 = 1 then "backward" else "forward")),
    ("t_pass", seconds 4 elapsed)]

-- Counts the labeled nodes by true and predicted label.
def countFrame (frame : Frame) : Step Confusion Unit :=
  (frame.graph.nodes.toList.zip frame.pred.toList).forM fun (r, label) =>
    if 0 < r.label then Confusion.add r.label label else pure ()

def score : Step (Scene σ) Unit := do
  let frame ← currentFrame
  let confusion ← currentConfusion
  Step.within (fun _ => confusion)
    (fun confusion s => { s with labeling := { s.labeling with confusion := some confusion } })
    (countFrame frame)

-- Reports the score of a run: its loss, its labels and an entry in the log.
def report : Step (Scene σ) (Array Int) := do
  let frame ← currentFrame
  let confusion ← currentConfusion
  let loss := confusion.loss
  modify fun s => { s with
    labeling := { s.labeling with lastLoss := some loss }
    host := (s.host.reportLoss loss).write (labelLine frame.pred.toList ++ "\n") }
  logFields "DONE" [("macro_f1", .text (Decimal.places 4 confusion.macroF1)),
    ("loss", .text (Decimal.places 4 loss)), ("labeled", .count confusion.total),
    ("prior_total", .real (Float.ofNat (← get).labeling.prior.total))]
  return frame.pred

def run [Decider σ] : Step (Scene σ) (Array Int) := logDefect do
  reset
  (List.range (← get).labeling.plan.passes).forM pass
  score
  report

def takedown : Step (Scene σ) Unit :=
  onLabeling fun l => { l with frame := none }

-- Ends the labeling for good.
def finish : Step (Scene σ) Unit :=
  onLabeling fun l =>
    Labeling.log { l with augmenter := l.augmenter.release, confusion := none }
      { tag := some (l.name ++ ":FINISH"), text := "task finished" }

end Scene
end CollectiveLabeling
