import CollectiveLabeling.Decimal.Shortest

/-!
Decimal text with a fixed number of places, rounded once from the exact value, a half going to the
even neighbour.
-/

namespace CollectiveLabeling.Decimal

def placesChars (count scaled : Nat) : List Char :=
  let digits := digitChars scaled
  let padded := List.replicate (count + 1 - digits.length) '0' ++ digits
  let whole := padded.length - count
  padded.take whole ++ (if count = 0 then [] else '.' :: padded.drop whole)

def places (count : Nat) (x : Float) : String :=
  match parts x with
  | .nan => "nan"
  | .infinite negative => signed negative ['i', 'n', 'f']
  | .finite negative magnitude =>
    signed negative <| placesChars count <|
      Binary.roundQuotient (magnitude.numerator * Nat.pow 10 count) magnitude.denominator

end CollectiveLabeling.Decimal
