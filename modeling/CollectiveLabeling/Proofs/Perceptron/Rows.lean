import CollectiveLabeling.Proofs.FeatureSpace.Labels
import CollectiveLabeling.Proofs.Perceptron
import Mathlib.Data.Int.Bitwise

namespace CollectiveLabeling

namespace FeatureSpace

variable {s : FeatureSpace} {x y : Int}

-- The lowest bits of a number, as many as it takes to count the rows.
def lowBits (s : FeatureSpace) (x : Int) : Nat :=
  (x % s.rows).toNat

theorem natCast_lowBits (s : FeatureSpace) (x : Int) : (s.lowBits x : Int) = x % 2 ^ s.bits := by
  have rows : (s.rows : Int) = 2 ^ s.bits := by simp [FeatureSpace.rows]
  have nonneg : 0 ≤ x % 2 ^ s.bits := Int.emod_nonneg x (by positivity)
  rw [lowBits, rows, Int.toNat_of_nonneg nonneg]

theorem lowBits_eq_iff : s.lowBits x = s.lowBits y ↔ x ≡ y [ZMOD 2 ^ s.bits] := by
  rw [← Int.natCast_inj, natCast_lowBits, natCast_lowBits, Int.ModEq]

-- A negative number has its bits in two's complement.
theorem testBit_lowBits (s : FeatureSpace) (x : Int) (i : Nat) :
    (s.lowBits x).testBit i = (decide (i < s.bits) && x.testBit i) := by
  cases x
  case ofNat n =>
    have low : s.lowBits (.ofNat n) = n % 2 ^ s.bits := by
      have := s.natCast_lowBits n
      exact_mod_cast this
    rw [low, Nat.testBit_mod_two_pow]
    rfl
  case negSucc n =>
    have lt : n % 2 ^ s.bits < 2 ^ s.bits := Nat.mod_lt _ (by positivity)
    have low : s.lowBits (.negSucc n) = 2 ^ s.bits - (n % 2 ^ s.bits + 1) := by
      have remainder := s.natCast_lowBits (.negSucc n)
      rw [Int.negSucc_emod _ (by positivity)] at remainder
      have cast : ((n % 2 ^ s.bits : Nat) : Int) = n % 2 ^ s.bits := by push_cast; rfl
      have cast' : ((2 ^ s.bits : Nat) : Int) = 2 ^ s.bits := by push_cast; rfl
      omega
    rw [low, Nat.testBit_two_pow_sub_succ lt, Nat.testBit_mod_two_pow]
    cases decide (i < s.bits) <;> rfl

theorem testBit_row (s : FeatureSpace) (bucket : Int) (i : Nat) :
    (s.row bucket).testBit i = (decide (i < s.bits) && bucket.testBit (s.strideShift + i)) := by
  have shifted : (bucket >>> s.strideShift).testBit i = bucket.testBit (s.strideShift + i) := by
    cases bucket
    case ofNat n => exact Nat.testBit_shiftRight n
    case negSucc n => exact congrArg not (Nat.testBit_shiftRight n)
  rw [← shifted]
  exact s.testBit_lowBits _ i

theorem lowBits_mul_eq_iff {salt : Int} (odd : IsCoprime 2 salt) :
    s.lowBits (x * salt) = s.lowBits (y * salt) ↔ x ≡ y [ZMOD 2 ^ s.bits] := by
  rw [lowBits_eq_iff, Int.mul_comm x, Int.mul_comm y, mul_modEq_mul_iff odd]

end FeatureSpace

namespace Perceptron

variable {space : FeatureSpace} {name name' : String} {c c' : Char} {label label' learner : Int}
  {p : Perceptron Float32} {input : List (Int × Float32)}

theorem conditionRow_eq (h : name.toList = [c]) (label : Int) : conditionRow space name label =
    .ok (space.lowBits (c.toNat * nameSalt) ^^^ space.lowBits (label * labelSalt)) := by
  simp only [conditionRow, h]
  rfl

theorem testBit_conditionRow {row : Nat} (h : name.toList = [c])
    (found : conditionRow space name label = .ok row) (i : Nat) : row.testBit i =
      (decide (i < space.bits) &&
        ((c.toNat * nameSalt : Int).testBit i ^^ (label * labelSalt).testBit i)) := by
  rw [conditionRow_eq h] at found
  cases found
  rw [Nat.testBit_xor, FeatureSpace.testBit_lowBits, FeatureSpace.testBit_lowBits]
  cases decide (i < space.bits) <;> simp

theorem conditionRow_label_eq_iff (h : name.toList = [c]) :
    conditionRow space name label = conditionRow space name label' ↔
      label ≡ label' [ZMOD 2 ^ space.bits] := by
  have odd : IsCoprime 2 labelSalt := Int.isCoprime_iff_gcd_eq_one.mpr rfl
  rw [conditionRow_eq h, conditionRow_eq h, Except.ok.injEq, Nat.xor_right_inj,
    FeatureSpace.lowBits_mul_eq_iff odd]

theorem conditionRow_name_eq_iff (h : name.toList = [c]) (h' : name'.toList = [c']) :
    conditionRow space name label = conditionRow space name' label ↔
      c.toNat ≡ c'.toNat [MOD 2 ^ space.bits] := by
  have odd : IsCoprime 2 nameSalt := Int.isCoprime_iff_gcd_eq_one.mpr rfl
  rw [conditionRow_eq h, conditionRow_eq h', Except.ok.injEq, Nat.xor_left_inj,
    FeatureSpace.lowBits_mul_eq_iff odd, ← Int.natCast_modEq_iff, Nat.cast_pow, Nat.cast_ofNat]

-- A learner may be counted from the end.
theorem exists_scores_iff (rows : ∀ x ∈ input, 0 ≤ x.1 ∧ x.1 < p.space.rows) :
    (∃ scores, p.scores learner input = .ok scores) ↔
      -p.learners.size ≤ learner ∧ learner < p.learners.size := by
  cases hi : Index.fin? p.learners.size learner
  case none =>
    have outside := Index.fin?_eq_none_iff.mp hi
    have refused : p.scores learner input = .error .outOfRange := by
      simp only [scores, learnerAt, hi, Attempt.error_bind]
    exact iff_of_false (by simp [refused]) (by omega)
  case some i =>
    have there : Index.fin? p.learners.size learner ≠ none := by simp [hi]
    have inside := Index.fin?_eq_none_iff.not.mp there
    have found : p.learnerAt learner = .ok i := by simp only [learnerAt, hi]
    exact iff_of_true (scores_of_learnerAt found rows) (by omega)

-- Where records and conditions lead in the table of a policy. They lead inside it, by the bits of their
-- buckets, names and labels alone, and two conditions meet only where these bits run out.
structure Addressing (space : FeatureSpace) : Prop where
  input     : ∀ r conditions, (∀ x ∈ conditions, x.1.length = 1) →
    ∃ input, featurize space r conditions = .ok input ∧ (∀ x ∈ input, x.1 < 2 ^ space.bits) ∧
      ∀ (p : Perceptron Float32) learner, p.space = space →
        ((∃ scores, p.scores learner (input.map fun (row, value) => ((row : Int), value.toFloat32)) =
          .ok scores) ↔ -p.learners.size ≤ learner ∧ learner < p.learners.size)
  bucket    : ∀ bucket i, (space.row bucket).testBit i =
    (decide (i < space.bits) && bucket.testBit (space.strideShift + i))
  condition : ∀ c label, ∃ row, conditionRow space (String.singleton c) label = .ok row ∧
    ∀ i, row.testBit i = (decide (i < space.bits) &&
      ((c.toNat * nameSalt : Int).testBit i ^^ (label * labelSalt).testBit i))
  labels    : ∀ c label label', conditionRow space (String.singleton c) label =
    conditionRow space (String.singleton c) label' ↔ label ≡ label' [ZMOD 2 ^ space.bits]
  names     : ∀ c c' label, conditionRow space (String.singleton c) label =
    conditionRow space (String.singleton c') label ↔ c.toNat ≡ c'.toNat [MOD 2 ^ space.bits]

theorem conditions_kept_apart (space : FeatureSpace) : Addressing space where
  input     := fun r conditions names => by
    have ⟨input, found, inside⟩ := featurize_ok space r names
    refine ⟨input, found, inside, fun p learner same => exists_scores_iff fun x hx => ?_⟩
    obtain ⟨y, hy, rfl⟩ := List.mem_map.mp hx
    exact ⟨Int.natCast_nonneg _, Int.ofNat_lt.mpr (same ▸ inside y hy)⟩
  bucket    := space.testBit_row
  condition := fun c label =>
    ⟨_, conditionRow_eq (String.toList_singleton c) label,
      testBit_conditionRow (String.toList_singleton c) (conditionRow_eq (String.toList_singleton c) label)⟩
  labels    := fun c _ _ => conditionRow_label_eq_iff (String.toList_singleton c)
  names     := fun c c' _ =>
    conditionRow_name_eq_iff (String.toList_singleton c) (String.toList_singleton c')

-- In a table of two rows every other label meets the first, and so do the names of every other code.
theorem conditions_kept_apart_narrow :
    let space : FeatureSpace := { bits := 1, strideShift := 0, weights := 1, pairs := [] }
    let r : Record := { features := [("a", [⟨1.0, -5⟩, ⟨1.0, 6⟩])], active := ["a"] }
    conditionRow space "e" 1 = conditionRow space "e" 3 ∧
      conditionRow space "e" 1 ≠ conditionRow space "e" 2 ∧
      conditionRow space "e" 1 = conditionRow space "g" 1 ∧
      ∃ input, featurize space r [("e", 1)] = .ok input ∧ ∀ x ∈ input, x.1 < 2 := by
  intro space r
  have ⟨input, _, _, labels, names⟩ := conditions_kept_apart space
  have ⟨rows, found, inside, _⟩ := input r [("e", 1)] (by decide)
  exact ⟨(labels 'e' 1 3).mpr (by decide), (labels 'e' 1 2).not.mpr (by decide),
    (names 'e' 'g' 1).mpr (by decide), rows, found, inside⟩

end Perceptron
end CollectiveLabeling
