import CollectiveLabeling.Decimal.Binary

/-!
The shortest decimal text of a floating-point number.

Of the decimals that round to the number the one with the fewest digits is written, the nearest of
those, and of two equally near the even one.
-/

namespace CollectiveLabeling.Decimal

-- The value `digits * 10 ^ exponent`.
structure Scaled where
  digits : Nat
  exponent : Int
deriving DecidableEq

-- Both sides of the comparison of `digits * 10 ^ exponent` with `n / denominator`, made whole.
def compareScaled (d : Scaled) (n denominator : Nat) : Ordering :=
  compare (d.digits * Nat.pow 10 d.exponent.toNat * denominator) (n * Nat.pow 10 (-d.exponent).toNat)

namespace Binary

-- The decimals that round to `x`: those between the midpoints to its neighbours, the midpoints
-- themselves only when the mantissa is even.
def readsBack (x : Binary) (d : Scaled) : Bool :=
  let low := if x.narrowBelow then 4 * x.mantissa - 1 else 4 * x.mantissa - 2
  let high := 4 * x.mantissa + 2
  let fourfold := 4 * x.denominator
  let aboveLow := compareScaled d (low * Nat.pow 2 x.exponent.toNat) fourfold
  let belowHigh := compareScaled d (high * Nat.pow 2 x.exponent.toNat) fourfold
  let closed := x.mantissa % 2 = 0
  (aboveLow = .gt || (closed && aboveLow = .eq)) && (belowHigh = .lt || (closed && belowHigh = .eq))

def decimalLength (n : Nat) : Nat :=
  (Nat.toDigits 10 n).length

-- The exponent of the leading digit.
def decade (x : Binary) : Int :=
  if x.denominator ≤ x.numerator then decimalLength (x.numerator / x.denominator) - 1
  else - (decimalLength ((x.denominator - 1) / x.numerator) : Int)

-- The two neighbours of the value on the grid of `count` digits, the better first.
def candidates (x : Binary) (count : Nat) : List Scaled :=
  let exponent := x.decade + 1 - count
  let n := x.numerator * Nat.pow 10 (-exponent).toNat
  let d := x.denominator * Nat.pow 10 exponent.toNat
  let floor := n / d
  let nearest := roundQuotient n d
  let other := if nearest = floor then floor + 1 else floor
  [⟨nearest, exponent⟩, ⟨other, exponent⟩]

-- Seventeen digits always suffice; were they not to, the exact value is written.
def shortest (x : Binary) : Scaled :=
  let grids := (List.range 17).flatMap fun i => x.candidates (i + 1)
  (grids.find? x.readsBack).getD
    ⟨x.numerator * Nat.pow 10 (-x.exponent).toNat / x.denominator, -((-x.exponent).toNat : Int)⟩

end Binary

def digitChars (n : Nat) : List Char :=
  Nat.toDigits 10 n

-- A number is written positionally while its leading digit stands for at least a ten-thousandth and
-- less than ten to the sixteenth, and with an exponent of at least two digits otherwise.
def positionalFrom : Int := -4
def positionalBelow : Int := 16

def stripZeros (s : List Char) : List Char :=
  (s.reverse.dropWhile (· = '0')).reverse

def exponentChars (e : Int) : List Char :=
  let digits := digitChars e.natAbs
  (if e < 0 then '-' else '+') :: (if digits.length < 2 then '0' :: digits else digits)

def layout (d : Scaled) : List Char :=
  let written := digitChars d.digits
  let lead : Int := written.length - 1 + d.exponent
  let digits := stripZeros written
  if positionalFrom ≤ lead ∧ lead < positionalBelow then
    if lead < 0 then ['0', '.'] ++ List.replicate (-lead - 1).toNat '0' ++ digits
    else
      let width := lead.toNat + 1
      let whole := digits.take width
      let fraction := digits.drop width
      whole ++ List.replicate (width - whole.length) '0' ++ '.' ::
        (if fraction.isEmpty then ['0'] else fraction)
  else
    digits.take 1 ++ (if digits.length ≤ 1 then [] else '.' :: digits.drop 1) ++ 'e' :: exponentChars lead

def signed (negative : Bool) (s : List Char) : String :=
  String.ofList (if negative then '-' :: s else s)

def shortest (x : Float) : String :=
  match parts x with
  | .nan => "nan"
  | .infinite negative => signed negative ['i', 'n', 'f']
  | .finite negative magnitude =>
    if magnitude.mantissa = 0 then signed negative ['0', '.', '0']
    else signed negative (layout magnitude.shortest)

end CollectiveLabeling.Decimal
