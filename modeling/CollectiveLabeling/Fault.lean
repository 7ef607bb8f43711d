import CollectiveLabeling.Decimal.Numeral
import CollectiveLabeling.Text.Quoted

/-!
What can go wrong, by cause.

A *defect* is a structural failure of the material at hand; it is announced before the current run is
given up. A *misuse* breaks the order of calls. An *invalid* argument is refused by the value's
constructor. The text of a fault may cite whole numbers, and there is no text, and so another fault,
where one of them is too long to be written.
-/

namespace CollectiveLabeling

inductive Defect where
  | nodeAfterEdge
  | labelOutside (label : Int) (bound : Option Int) (node : Nat)
  | edgesWithoutNodes
  | nodeIdTooLarge (id : Int) (nodes : Nat)
  | nodeIdNotPositive (id : Int)
  | misaligned (bucket stride : Int)
  | answerOutside (label : Int) (labels : Nat) (node : Int)
  | stated (text : String)
deriving DecidableEq

namespace Defect

def message : Defect → String
  | nodeAfterEdge => "got a node after getting edges!"
  | labelOutside label bound node =>
    let bound := match bound with
      | some k => toString k
      | none => "K"
    s!"node label {label} outside 1..{bound} for node {node}"
  | edgesWithoutNodes =>
    "got edges without any nodes (perhaps the episode buffer is too small?)!"
  | nodeIdTooLarge id nodes => s!"edge source points to too large of a node id: {id} > {nodes}"
  | nodeIdNotPositive id => s!"edge source points to a non-positive node id: {id}"
  | misaligned bucket stride =>
    s!"feature bucket {bucket} is not aligned to the model stride {stride}"
  | answerOutside label labels node =>
    s!"predictor returned label {label} outside 1..{labels} for node {node}"
  | stated text => text

def announcement (d : Defect) : String :=
  "error: " ++ d.message ++ "\n"

-- The whole numbers in the message.
def cited : Defect → List Int
  | labelOutside label bound node => label :: bound.toList ++ [(node : Int)]
  | nodeIdTooLarge id nodes => [id, nodes]
  | nodeIdNotPositive id => [id]
  | misaligned bucket stride => [bucket, stride]
  | answerOutside label labels node => [label, labels, node]
  | nodeAfterEdge | edgesWithoutNodes | stated _ => []

end Defect

inductive Misuse where
  | stillActive (active node : Int)
  | notActive (node : Int)
  | notSetUp
deriving DecidableEq

def Misuse.message : Misuse → String
  | stillActive active node =>
    s!"augmentation of node {active} still active while augmenting node {node}"
  | notActive node => s!"revert of node {node} does not match the active augmentation"
  | notSetUp => "run() called before setup()"

def Misuse.cited : Misuse → List Int
  | stillActive active node => [active, node]
  | notActive node => [node]
  | notSetUp => []

inductive Invalid where
  | loopCount (count : Int)
  | bitCount (count : Int)
  | strideShift (shift : Int)
  | weightsPerProblem (count : Int)
  | pair (text : String)
  | namespaceName (text : String)
  | negativeSize
  | actionCount (count : Int)
  | labelCount (count : Int)
  | tooFewNodes (nodes labels : Int)
  | learner (id : Int) (learners : Int)
  | wholeNumber (text : String)
  | tooManyDigits (limit count : Nat)
  | unwritable (limit : Nat)
  | number (text : String)
  | nullCharacter
deriving DecidableEq

namespace Invalid

-- An unreadable whole number is cited up to two hundred characters of its quotation.
def citedLength : Nat := 200

def liftingHint : String :=
  "use sys.set_int_max_str_digits() to increase the limit"

def message : Invalid → String
  | loopCount count => s!"num_loops must be >= 0, got {count}"
  | bitCount count => s!"bits must be in [1, 32], got {count}"
  | strideShift shift => s!"stride_shift must be >= 0, got {shift}"
  | weightsPerProblem count => s!"wpp must be >= 1, got {count}"
  | pair text => "namespace pair must have two characters, got " ++ Text.quote text
  | namespaceName text => "namespace must be one character, got " ++ Text.quote text
  | negativeSize => "negative dimensions are not allowed"
  | actionCount count => s!"num_actions must be >= 1, got {count}"
  | labelCount count => s!"num_labels must be >= 1, got {count}"
  | tooFewNodes nodes labels => s!"need at least one node per label: nodes={nodes}, labels={labels}"
  | learner id learners => s!"learner id {id} outside 0..{learners - 1}"
  | wholeNumber text =>
    "invalid literal for int() with base 10: " ++
      String.ofList ((Text.quote text).toList.take citedLength)
  | tooManyDigits limit count =>
    s!"Exceeds the limit ({limit} digits) for integer string conversion: value has {count} digits; " ++
      liftingHint
  | unwritable limit =>
    s!"Exceeds the limit ({limit} digits) for integer string conversion; " ++ liftingHint
  | number text => "could not convert string to float: " ++ Text.quote text
  | nullCharacter => "embedded null byte"

def cited : Invalid → List Int
  | loopCount n | bitCount n | strideShift n | weightsPerProblem n | actionCount n | labelCount n => [n]
  | tooFewNodes nodes labels => [nodes, labels]
  | learner id learners => [id, learners - 1]
  | _ => []

end Invalid

inductive FileFault where
  | missing
  | occupied
  | isDirectory
  | notDirectory
  | nameTooLong
deriving DecidableEq

def FileFault.message : FileFault → String
  | missing => "no such file or directory"
  | occupied => "file exists"
  | isDirectory => "is a directory"
  | notDirectory => "not a directory"
  | nameTooLong => "file name too long"

inductive Fault where
  | defect (d : Defect)
  | misuse (m : Misuse)
  | invalid (i : Invalid)
  | outOfRange
  | notOneCharacter
  | reservedKey
  | finished
  | hostFailed
  | negativeTable
  | improbable
  | unequalLengths
  | blank
  | file (f : FileFault)
deriving DecidableEq

namespace Fault

-- The text shown at once on the error stream; only defects are announced.
def announcement : Fault → String
  | defect d => d.announcement
  | _ => ""

def message : Fault → String
  | defect d => d.message
  | misuse m => m.message
  | invalid i => i.message
  | outOfRange => "position out of range"
  | notOneCharacter => "a condition's name must be one character"
  | reservedKey => "the name of a field is reserved"
  | finished => "the labeling is finished"
  | hostFailed => "the host failed"
  | negativeTable => "a table cannot have a negative size"
  | improbable => "a probability must lie between zero and one"
  | unequalLengths => "rows and values differ in number"
  | blank => "a setting is left blank"
  | file f => f.message

def cited : Fault → List Int
  | defect d => d.cited
  | misuse m => m.cited
  | invalid i => i.cited
  | _ => []

-- What comes of a fault that is about to be thrown: its text is made first.
def raised (f : Fault) : Fault :=
  if f.cited.all Decimal.writable then f else .invalid (.unwritable Decimal.digitLimit)

end Fault
end CollectiveLabeling
