import CollectiveLabeling.Fault

/-!
The layout of the model's buckets.

A feature owns a row of `2 ^ strideShift` slots for each of the weights of a problem, so features sit
on multiples of the stride. There are `2 ^ bits` rows, and all buckets are taken below the mask.
-/

namespace CollectiveLabeling

structure FeatureSpace where
  bits : Nat
  strideShift : Nat
  weights : Nat
  pairs : List String
  bits_pos : 1 ≤ bits := by decide
  bits_le : bits ≤ 32 := by decide
  weights_pos : 1 ≤ weights := by decide

namespace FeatureSpace

-- A layout as it is asked for, before it is checked.
structure Settings where
  bits : Int := 18
  strideShift : Int := 2
  weights : Int := 1
  pairs : List String := []

def ofSettings (s : Settings) : Except Fault FeatureSpace :=
  if bits : 1 ≤ s.bits ∧ s.bits ≤ 32 then
    if s.strideShift < 0 then .error (Fault.raised (.invalid (.strideShift s.strideShift)))
    else if weights : 1 ≤ s.weights then
      match s.pairs.find? (·.length ≠ 2) with
      | some p => .error (.invalid (.pair p))
      | none => .ok {
          bits := s.bits.toNat
          strideShift := s.strideShift.toNat
          weights := s.weights.toNat
          pairs := s.pairs
          bits_pos := by omega
          bits_le := by omega
          weights_pos := by omega }
    else .error (Fault.raised (.invalid (.weightsPerProblem s.weights)))
  else .error (Fault.raised (.invalid (.bitCount s.bits)))

def standard : FeatureSpace where
  bits := 18
  strideShift := 2
  weights := 1
  pairs := []

theorem ofSettings_default : ofSettings {} = .ok standard :=
  rfl

def rows (s : FeatureSpace) : Nat :=
  Nat.pow 2 s.bits

def stride (s : FeatureSpace) : Nat :=
  s.weights * Nat.pow 2 s.strideShift

-- The number of buckets; a bucket is kept below it by dropping the higher bits.
def size (s : FeatureSpace) : Nat :=
  Nat.pow 2 (s.bits + s.strideShift)

def mask (s : FeatureSpace) : Nat :=
  s.size - 1

theorem rows_pos (s : FeatureSpace) : 0 < s.rows :=
  Nat.pow_pos (by decide)

theorem stride_pos (s : FeatureSpace) : 0 < s.stride :=
  Nat.mul_pos s.weights_pos (Nat.pow_pos (by decide))

theorem size_pos (s : FeatureSpace) : 0 < s.size :=
  Nat.pow_pos (by decide)

def fold (s : FeatureSpace) (bucket : Int) : Int :=
  bucket % s.size

theorem fold_nonneg (s : FeatureSpace) (bucket : Int) : 0 ≤ s.fold bucket :=
  Int.emod_nonneg _ (by have := s.size_pos; omega)

theorem fold_le_mask (s : FeatureSpace) (bucket : Int) : s.fold bucket ≤ s.mask := by
  have pos := s.size_pos
  have lt := Int.emod_lt_of_pos bucket (b := s.size) (by omega)
  simp only [fold, mask]
  omega

-- The bucket of a feature.
def place (s : FeatureSpace) (feature : Int) : Int :=
  s.fold (feature * s.stride)

def Aligned (s : FeatureSpace) (bucket : Int) : Prop :=
  (s.stride : Int) ∣ bucket

instance (s : FeatureSpace) (bucket : Int) : Decidable (s.Aligned bucket) :=
  inferInstanceAs (Decidable ((s.stride : Int) ∣ bucket))

-- The row of the weight table that a bucket reads.
def row (s : FeatureSpace) (bucket : Int) : Nat :=
  ((bucket >>> s.strideShift) % s.rows).toNat

theorem row_lt (s : FeatureSpace) (bucket : Int) : s.row bucket < s.rows := by
  have pos := s.rows_pos
  have lt := Int.emod_lt_of_pos (bucket >>> s.strideShift) (b := s.rows) (by omega)
  have nonneg := Int.emod_nonneg (bucket >>> s.strideShift) (b := s.rows) (by omega)
  simp only [row]
  omega

end FeatureSpace
end CollectiveLabeling
