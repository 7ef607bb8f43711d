/-!
The exact value of a binary floating-point number.

A finite number of double precision is a natural mantissa times a power of two, with a sign. Decimal
text is compared with it in natural-number arithmetic, so nothing here rounds.
-/

namespace CollectiveLabeling.Decimal

-- The value `mantissa * 2 ^ exponent`.
structure Binary where
  mantissa : Nat
  exponent : Int
  -- The number below is half as far away as the number above: the first of its binade.
  narrowBelow : Bool

inductive Parts where
  | nan
  | infinite (negative : Bool)
  | finite (negative : Bool) (magnitude : Binary)

def parts (x : Float) : Parts :=
  let bits := x.toBits
  let negative := bits >>> 63 = 1
  let biased := ((bits >>> 52) &&& 0x7FF).toNat
  let fraction := (bits &&& 0xFFFFFFFFFFFFF).toNat
  if biased = 0x7FF then
    if fraction = 0 then .infinite negative else .nan
  else if biased = 0 then .finite negative ⟨fraction, -1074, false⟩
  else .finite negative ⟨Nat.pow 2 52 + fraction, (biased : Int) - 1075, fraction = 0 && 1 < biased⟩

namespace Binary

-- The value is `numerator / denominator`; four times it and the ends of its interval share the
-- denominator.
def numerator (x : Binary) : Nat :=
  x.mantissa * Nat.pow 2 x.exponent.toNat

def denominator (x : Binary) : Nat :=
  Nat.pow 2 (-x.exponent).toNat

-- The quotient rounded to the nearest natural number, a half going to the even neighbour.
def roundQuotient (numerator denominator : Nat) : Nat :=
  let floor := numerator / denominator
  let twice := 2 * (numerator % denominator)
  if denominator < twice || (twice = denominator && floor % 2 = 1) then floor + 1 else floor

end Binary
end CollectiveLabeling.Decimal
