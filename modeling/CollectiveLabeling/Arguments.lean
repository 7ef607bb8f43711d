import CollectiveLabeling.CommandLine
import CollectiveLabeling.Decimal.Numeral
import CollectiveLabeling.Plan
import CollectiveLabeling.Setting

/-!
The settings of a program run, and the switches that change them.
-/

namespace CollectiveLabeling

open CommandLine

-- What a command line says of the plan.
structure PlanArguments where
  passes : Setting Int := .given 2
  useStructure : Bool := true
  separateLearners : Bool := false

def PlanArguments.plan (a : PlanArguments) : Except Fault Plan := do
  let passes ← a.passes.value
  Plan.ofSettings { passes, useStructure := a.useStructure, separateLearners := a.separateLearners }

structure Arguments where
  plan : PlanArguments := {}
  nodes : Setting Int := .given 60
  labels : Setting Int := .given 3
  pIn : Setting Float := .given 0.3
  pOut : Setting Float := .given 0.02
  noise : Setting Float := .given 0.4
  hyperedges : Bool := false
  trainEpisodes : Setting Int := .given 8
  testEpisodes : Setting Int := .given 4
  epochs : Setting Int := .given 3
  bits : Setting Int := .given 16
  seed : Setting Int := .given 1337
  logFile : Option (Setting String) := none
  plot : Option (Setting String) := none
  predictions : Option (Setting String) := none

namespace Arguments

variable {α β : Type}

-- A switch with a value of the given kind.
def valued (kind : String) (read : String → Option β) (spelling : String)
    (put : Setting β → α → α) : Switch α where
  spellings := [spelling]
  effect := .value kind (fun text settings => (read text).map fun x => put (.given x) settings)
    (put .blank)

def whole : String → (Setting Int → α → α) → Switch α :=
  valued "int" fun text => (Decimal.readInt text).toOption

def real : String → (Setting Float → α → α) → Switch α :=
  valued "float" Decimal.readFloat

def text : String → (Setting String → α → α) → Switch α :=
  valued "str" some

def flag (spelling : String) (put : α → α) : Switch α where
  spellings := [spelling]
  effect := .flag put

def help : Switch α where
  spellings := ["-h", "--help"]
  effect := .help

-- The switches of the plan, for settings that hold one.
def planSwitches (onPlan : (PlanArguments → PlanArguments) → α → α) : List (Switch α) := [
  whole "--search_graph_num_loops" fun n => onPlan fun p => { p with passes := n },
  flag "--search_graph_no_structure" (onPlan fun p => { p with useStructure := false }),
  flag "--search_graph_separate_learners" (onPlan fun p => { p with separateLearners := true })]

def switches : List (Switch Arguments) :=
  help :: planSwitches (fun f a => { a with plan := f a.plan }) ++ [
    whole "--nodes" fun n a => { a with nodes := n },
    whole "--labels" fun n a => { a with labels := n },
    real "--p_in" fun x a => { a with pIn := x },
    real "--p_out" fun x a => { a with pOut := x },
    real "--noise" fun x a => { a with noise := x },
    flag "--hyperedges" fun a => { a with hyperedges := true },
    whole "--train_episodes" fun n a => { a with trainEpisodes := n },
    whole "--test_episodes" fun n a => { a with testEpisodes := n },
    whole "--epochs" fun n a => { a with epochs := n },
    whole "--bits" fun n a => { a with bits := n },
    whole "--seed" fun n a => { a with seed := n },
    text "--log_file" fun s a => { a with logFile := some s },
    text "--plot" fun s a => { a with plot := some s },
    text "--predictions" fun s a => { a with predictions := some s }]

def parse (arguments : List String) : Except Exit Arguments :=
  CommandLine.parse switches {} arguments

-- A path that a setting names; a blank one and the empty path name nothing.
def path? : Option (Setting String) → Option String
  | some (.given s) => if s = "" then none else some s
  | _ => none

-- A command line with the switches of the plan only.
def parsePlan (arguments : List String) : Except Exit PlanArguments :=
  CommandLine.parse (help :: planSwitches id) {} arguments

end Arguments
end CollectiveLabeling
