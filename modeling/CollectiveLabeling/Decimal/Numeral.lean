import CollectiveLabeling.Text.Digit

/-!
Numbers read from text.

A numeral may be surrounded by blanks and may carry a sign. Its digits may be of any script, and a
single underscore may stand between two of them.
-/

namespace CollectiveLabeling.Decimal

inductive Unreadable where
  | malformed
  | tooLong (digits : Nat)
deriving DecidableEq

-- Longer whole numbers are neither read nor written.
def digitLimit : Nat := 4300

-- Whether the digits of a whole number are within the limit.
@[irreducible]
def writable (n : Int) : Bool :=
  n.natAbs < Nat.pow 10 digitLimit

def trim (s : List Char) : List Char :=
  ((s.dropWhile Text.isAsciiBlank).reverse.dropWhile Text.isAsciiBlank).reverse

def plainChars (s : String) : List Char :=
  s.toList.map Text.plain

def takeSign : List Char → Bool × List Char
  | '-' :: rest => (true, rest)
  | '+' :: rest => (false, rest)
  | rest => (false, rest)

-- Underscores stand between digits only.
def joined (before : Bool) : List Char → Option (List Char)
  | [] => some []
  | '_' :: c :: rest => if before && c.isDigit then (joined true rest).map (c :: ·) else none
  | c :: rest => if c = '_' then none else (joined c.isDigit rest).map (c :: ·)

def digitsValue (s : List Char) : Nat :=
  s.foldl (fun n c => 10 * n + (c.toNat - '0'.toNat)) 0

def applySign (negative : Bool) (n : Nat) : Int :=
  if negative then -(n : Int) else n

def readInt (s : String) : Except Unreadable Int :=
  let (negative, body) := takeSign ((plainChars s).dropWhile Text.isAsciiBlank)
  let run := body.takeWhile fun c => c.isDigit || c = '_'
  let rest := body.dropWhile fun c => c.isDigit || c = '_'
  match joined false run with
  | none | some [] => .error .malformed
  | some digits =>
    if digitLimit < digits.length then .error (.tooLong digits.length)
    else if rest.all Text.isAsciiBlank then .ok (applySign negative (digitsValue digits))
    else .error .malformed

-- Far outside the range of the format the result is known without computing the power.
def scientific (digits : List Char) (exponent : Int) : Float :=
  let significant := digits.dropWhile (· = '0')
  let lead := significant.length + exponent
  if significant.isEmpty || lead < -400 then 0.0
  else if 400 < lead then 1.0 / 0.0
  else Float.ofScientific (digitsValue significant) (exponent < 0) exponent.natAbs

def readExponent : List Char → Option Int
  | [] => some 0
  | c :: rest =>
    if c = 'e' || c = 'E' then
      let (negative, digits) := takeSign rest
      if !digits.isEmpty && digits.all Char.isDigit then
        some (applySign negative (digitsValue digits))
      else none
    else none

def readUnsigned (s : List Char) : Option Float :=
  let word := s.map Char.toLower
  if word = "inf".toList || word = "infinity".toList then some (1.0 / 0.0)
  else if word = "nan".toList then some (0.0 / 0.0)
  else
    let whole := s.takeWhile Char.isDigit
    let afterWhole := s.dropWhile Char.isDigit
    let (fraction, rest) := match afterWhole with
      | '.' :: tail => (tail.takeWhile Char.isDigit, tail.dropWhile Char.isDigit)
      | _ => ([], afterWhole)
    if whole.isEmpty && fraction.isEmpty then none
    else (readExponent rest).map fun e => scientific (whole ++ fraction) (e - fraction.length)

def readFloat (s : String) : Option Float := do
  let digits ← joined false (trim (plainChars s))
  let (negative, body) := takeSign digits
  let x ← readUnsigned body
  return if negative then -x else x

end CollectiveLabeling.Decimal
