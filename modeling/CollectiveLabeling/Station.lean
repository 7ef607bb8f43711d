import CollectiveLabeling.Files
import CollectiveLabeling.Journal

/-!
Where a program's text goes: the files, the screen and the clock its entries are stamped by.
-/

namespace CollectiveLabeling

structure Station where
  files : Files := {}
  screen : String := ""
  clock : Clock

namespace Station

def within {α : Type} (x : Step Files α) : Step Station α :=
  Step.within Station.files (fun f s => { s with files := f }) x

def print (text : String) : Step Station Unit :=
  modify fun s => { s with screen := s.screen ++ text }

-- Files an entry; without a file nothing is kept of it. A shown entry also appears on the screen,
-- as it was filed.
def record (file : Option String) (e : Entry) (shown : Bool) : Step Station Unit := do
  match file with
  | none => if shown then print (e.text ++ "\n")
  | some path =>
    let directory := Files.directoryOf path
    if directory ≠ "" then within (Files.makeDirectory directory)
    let text := e.written (← get).clock.date
    within (Files.append path text)
    if shown then print text

-- The names that a field of an entry cannot have.
def reservedKeys : List String := ["tag", "log_file"]

def recordFields (file : Option String) (tag : String) (fields : List (String × Shown)) :
    Step Station Unit :=
  if fields.any fun (key, _) => reservedKeys.contains key then throw .reservedKey
  else if fields.all fun (_, value) => value.writable then record file (.ofFields tag fields) false
  else throw (.invalid (.unwritable Decimal.digitLimit))

-- Files a defect and gives up.
def abort {α : Type} (file : Option String) (d : Defect) : Step Station α := do
  record file (.ofDefect d) false
  throw (.defect d)

end Station
end CollectiveLabeling
