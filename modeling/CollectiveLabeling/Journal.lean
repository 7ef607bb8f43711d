import CollectiveLabeling.Clock
import CollectiveLabeling.Decimal.Places
import CollectiveLabeling.Text.Lines

/-!
Entries of a log.

Every line of an entry's text is written on a line of its own behind the date and the tag, so a line
of the log always begins with a stamp, whatever the text holds.
-/

namespace CollectiveLabeling

structure Entry where
  tag : Option String
  text : String

-- A value as it is shown in an entry. What can be counted at hand is never too long to be written;
-- a number that is given can be.
inductive Shown where
  | text (s : String)
  | count (n : Nat)
  | whole (n : Int)
  | real (x : Float)
  | truth (b : Bool)
  | absent

namespace Shown

def toText : Shown → String
  | text s => s
  | count n => toString n
  | whole n => toString n
  | real x => Decimal.shortest x
  | truth b => if b then "True" else "False"
  | absent => "None"

def writable : Shown → Bool
  | whole n => Decimal.writable n
  | _ => true

end Shown

namespace Entry

def heading (date : Date) (tag : Option String) : String :=
  "[" ++ date.stamp ++ "]" ++ match tag with
    | some t => "[" ++ t ++ "]"
    | none => ""

-- The lines of a text; an empty text has one empty line.
def textLines (s : String) : List String :=
  match Text.lines s with
  | [] => [""]
  | lines => lines

def written (date : Date) (e : Entry) : String :=
  String.join ((textLines e.text).map fun line => heading date e.tag ++ " " ++ line ++ "\n")

def ofFields (tag : String) (fields : List (String × Shown)) : Entry where
  tag := some tag
  text := " | ".intercalate (fields.map fun (key, value) => key ++ "=" ++ value.toText)

def ofDefect (d : Defect) : Entry where
  tag := some "ERROR"
  text := d.message

end Entry

-- An elapsed time to so many places of a second.
def seconds (places : Nat) (x : Float) : Shown :=
  .text (Decimal.places places x ++ "s")

end CollectiveLabeling
