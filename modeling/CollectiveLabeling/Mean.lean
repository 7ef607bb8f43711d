/-!
The mean of a list of numbers.

The order of the additions is fixed. Up to seven numbers are added one after the other; more are added
in eight lanes, which are joined in pairs, and what does not fill the lanes is added last. Beyond a
hundred and twenty-eight numbers the list is halved at a multiple of eight.
-/

namespace CollectiveLabeling.Mean

def laneCount : Nat := 8
def blockLength : Nat := 128

def sumInOrder (start : Float) (xs : List Float) : Float :=
  xs.foldl (· + ·) start

-- Adds whole rows to the lanes; the rest comes back.
def addRows (lanes xs : List Float) (rows : Nat) : List Float × List Float :=
  match rows with
  | 0 => (lanes, xs)
  | rows + 1 => addRows (List.zipWith (· + ·) lanes (xs.take laneCount)) (xs.drop laneCount) rows

def joinPairs : List Float → List Float
  | x :: y :: rest => (x + y) :: joinPairs rest
  | rest => rest

def sumBlock (xs : List Float) : Float :=
  if xs.length < laneCount then sumInOrder 0.0 xs
  else
    let (lanes, rest) := addRows (xs.take laneCount) (xs.drop laneCount) (xs.length / laneCount - 1)
    sumInOrder ((joinPairs (joinPairs (joinPairs lanes))).headD 0.0) rest

def half (n : Nat) : Nat :=
  n / 2 - n / 2 % laneCount

def sum (xs : List Float) : Float :=
  if xs.length ≤ blockLength then sumBlock xs
  else sum (xs.take (half xs.length)) + sum (xs.drop (half xs.length))
termination_by xs.length
decreasing_by
  all_goals
    simp only [blockLength, List.length_take, List.length_drop, half, laneCount] at *
    omega

-- The mean of no numbers is no number.
def mean (xs : List Float) : Float :=
  sum xs / Float.ofNat xs.length

end CollectiveLabeling.Mean
