import CollectiveLabeling.Step

/-!
A tree of text files.

A path is a row of names that starts at the working directory, or at the root when its first name is a
slash. Writing to a file in a directory that is not there fails, and so does writing to a directory; a
directory cannot be made where a file stands. No name holds the null character, and none is longer
than the tree can keep.
-/

namespace CollectiveLabeling

abbrev Path := List String

namespace Path

def slash : String := "/"
def up : String := ".."

def start (s : String) : Path :=
  if s.startsWith slash then [slash] else []

def names (s : String) : List String :=
  (s.splitOn slash).filter (· ≠ "")

-- A single dot stays where it is and two go up. Above the working directory the way up is kept.
def follow (above : Path) (name : String) : Path :=
  if name = "." then above
  else if name ≠ up then above ++ [name]
  else if above = [slash] then above
  else if above.all (· = up) then above ++ [up]
  else above.dropLast

-- The places on the way from here through the names.
def through (here : Path) : List String → List Path
  | [] => [here]
  | name :: rest => here :: through (follow here name) rest

def holdsNull (s : String) : Bool :=
  s.contains '\x00'

-- In bytes.
def nameLimit : Nat := 255

def spelled (p : Path) : String :=
  slash.intercalate p

end Path

structure Files where
  directories : List Path := []
  texts : List (Path × String) := []

namespace Files

-- The part of a path before its last slash.
def directoryOf (s : String) : String :=
  Path.slash.intercalate (s.splitOn Path.slash).dropLast

def isDirectory (f : Files) (p : Path) : Bool :=
  p.all (· = Path.up) || p = [Path.slash] || f.directories.contains p

def text? (f : Files) (p : Path) : Option String :=
  f.texts.lookup p

def isFile (f : Files) (p : Path) : Bool :=
  (f.text? p).isSome

def setText (f : Files) (p : Path) (s : String) : Files :=
  { f with texts := if f.isFile p then f.texts.map fun (q, t) => (q, if q = p then s else t)
      else f.texts ++ [(p, s)] }

-- Makes a directory under another, unless something is there already; says whether it did.
def makeUnder (above : Path) (name : String) : Step Files Bool := do
  if Path.holdsNull name then throw (.invalid .nullCharacter)
  let f ← get
  if f.isFile above then throw (.file .notDirectory)
  if Path.nameLimit < name.utf8ByteSize then throw (.file .nameTooLong)
  let here := Path.follow above name
  if f.isFile here || f.isDirectory here then return false
  set { f with directories := f.directories ++ [here] }
  return true

-- Makes the directories that are missing on the way through the names; says where the way ends and
-- whether any was missing.
def makePath : Path → List String → Step Files (Path × Bool)
  | here, [] => return (here, false)
  | above, name :: left => do
    let made ← makeUnder above name
    let (ending, later) ← makePath (Path.follow above name) left
    return (ending, made || later)

-- Makes a directory, or keeps the one that is there.
def makeDirectory (s : String) : Step Files Unit := do
  let (here, _) ← makePath (Path.start s) (Path.names s)
  if (← get).isFile here then throw (.file .occupied)

-- Makes a directory that must not be there yet. A dot at the end stands for what is before it.
def makeNewDirectory (s : String) : Step Files Unit := do
  if s = "" then throw (.file .missing)
  let names := Path.names s
  let (above, madeAbove) ← makePath (Path.start s) names.dropLast
  let made ← (names.getLast?.mapM (makeUnder above) : Step Files (Option Bool))
  unless made = some true || (madeAbove && names.getLast? = some ".") do
    throw (.file .occupied)

-- Goes through the names; every place that is left behind has to be a directory.
def walk (f : Files) : Path → List String → Except Fault Path
  | here, [] => .ok here
  | here, name :: rest =>
    if f.isFile here then .error (.file .notDirectory)
    else if !f.isDirectory here then .error (.file .missing)
    else if Path.nameLimit < name.utf8ByteSize then .error (.file .nameTooLong)
    else walk f (Path.follow here name) rest

-- Checks that a file can be opened for writing and says where it is. A path that ends in a slash is
-- taken for a directory.
def openable (f : Files) (s : String) : Except Fault Path := do
  if Path.holdsNull s then throw (.invalid .nullCharacter)
  if s = "" then throw (.file .missing)
  let p ← f.walk (Path.start s) (Path.names s)
  if f.isDirectory p || s.endsWith Path.slash then throw (.file .isDirectory)
  return p

-- Adds to the end of a file.
def append (s : String) (added : String) : Step Files Unit := do
  let f ← get
  let p ← Step.lift (f.openable s)
  set (f.setText p ((f.text? p).getD "" ++ added))

-- Opens a file for writing from the start; what stood in it is gone.
def truncate (s : String) : Step Files Unit := do
  let f ← get
  let p ← Step.lift (f.openable s)
  set (f.setText p "")

-- Writes from the start of a file over what stands there.
def overwrite (s : String) (text : String) : Step Files Unit := do
  let f ← get
  let p ← Step.lift (f.openable s)
  let old := (f.text? p).getD ""
  set (f.setText p (text ++ String.ofList (old.toList.drop text.length)))

end Files
end CollectiveLabeling
