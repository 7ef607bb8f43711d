import CollectiveLabeling.Confusion.Chart
import CollectiveLabeling.Experiment
import CollectiveLabeling.Planted.Stream
import Std.Time

/-!
The command line.

The files that the command line names are looked up on disk, the experiment is run on them, and what
it changed is put back. The file of a picture holds the commands that draw it, one to a line.
-/

namespace CollectiveLabeling.CommandLine

open Confusion

def currentDate : IO Date := do
  let now ← Std.Time.PlainDateTime.now
  return {
    year := now.year.toInt.toNat
    month := now.month.toInt.toNat
    day := now.day.toInt.toNat
    hour := now.hour.toInt.toNat
    minute := now.minute.toInt.toNat
    second := now.second.toInt.toNat }

-- Looks up what stands at a place.
def survey (f : Files) (p : Path) : IO Files := do
  if let .ok text ← (IO.FS.readFile p.spelled).toBaseIO then return f.setText p text
  if let .ok _ ← (IO.FS.realPath p.spelled).toBaseIO then
    return { f with directories := f.directories ++ [p] }
  return f

-- Looks up all that lies on the way of some paths.
def surveyAll (paths : List String) : IO Files :=
  (paths.flatMap fun s => (Path.start s).through (Path.names s)).foldlM survey {}

-- Puts down what differs from what was there before.
def store (before after : Files) : IO Unit := do
  for p in after.directories do
    if !before.isDirectory p then IO.FS.createDirAll p.spelled
  for (p, text) in after.texts do
    if before.text? p ≠ some text then IO.FS.writeFile p.spelled text

def operandText : Operand → String
  | .text s => Text.quote s
  | .whole n => toString n
  | .list xs => "[" ++ ", ".intercalate (xs.map operandText) ++ "]"
  | .handle => "_"

def commandText (c : Command) : String :=
  " ".intercalate (c.name :: c.operands.map operandText ++
    c.options.map fun (name, o) => name ++ "=" ++ operandText o)

def paint : Painter := .ofText fun p =>
  String.join ((Chart.commands p.confusion p.path (some p.title)).map fun c => commandText c ++ "\n")

def usage : String :=
  "usage: collective-labeling\n" ++
    String.join (Arguments.switches.map fun s => "  " ++ s.summary ++ "\n")

-- Says how a run ended and gives its exit code.
def conclude : Experiment.Ending → IO UInt32
  | .done => return 0
  | .refused e => do
    match e.message? with
    | none => IO.print usage
    | some text => IO.eprint (usage ++ "error: " ++ text ++ "\n")
    return e.code.toUInt32
  | .failed f => do
    IO.eprintln ("error: " ++ f.message)
    return 1

def pathsOf (arguments : List String) (date : Date) : List String :=
  match Arguments.parse arguments with
  | .ok a => (Experiment.logPath a date).toOption.toList ++ (Arguments.path? a.predictions).toList ++
    (Arguments.path? a.plot).toList
  | .error _ => []

def supply : Supply := fun space c => do
  Planted.Stream.episode space (← c.request)

def run (arguments : List String) : IO UInt32 := do
  let date ← currentDate
  let files ← surveyAll (pathsOf arguments date)
  let (ending, desk) := Experiment.main supply paint arguments
    { station := { files, clock := { date } } }
  store files desk.station.files
  IO.print desk.station.screen
  conclude ending

end CollectiveLabeling.CommandLine

def main (arguments : List String) : IO UInt32 :=
  CollectiveLabeling.CommandLine.run arguments
