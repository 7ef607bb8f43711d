import CollectiveLabeling.Neighborhood
import Mathlib.Data.Int.GCD
import Mathlib.Data.Nat.Prime.Basic

namespace CollectiveLabeling.FeatureSpace

section Multiples

variable {stride bound : Nat}

-- What is left of the multiples of a stride below a bound are multiples again just if one of the two
-- divides the other: among them is the greatest common divisor.
theorem dvd_mul_emod_iff (pos : 0 < bound) :
    (∀ x : Int, (stride : Int) ∣ x * stride % bound) ↔ stride ∣ bound ∨ bound ∣ stride := by
  constructor
  case mp =>
    intro h
    have bezout := Nat.gcd_eq_gcd_ab stride bound
    have left : (Nat.gcdA stride bound * stride) % bound = (Nat.gcd stride bound : Int) % bound := by
      rw [bezout, Int.add_mul_emod_self_left, Int.mul_comm]
    have hd := h (Nat.gcdA stride bound)
    rw [left, ← Int.natCast_emod, Int.natCast_dvd_natCast] at hd
    obtain lt | eq := Nat.lt_or_eq_of_le (Nat.gcd_le_right stride pos)
    case inl =>
      rw [Nat.mod_eq_of_lt lt] at hd
      exact .inl (hd.trans (Nat.gcd_dvd_right stride bound))
    case inr => exact .inr (eq ▸ Nat.gcd_dvd_left stride bound)
  case mpr =>
    rintro (h | h) x
    case inl =>
      rw [Int.emod_def]
      exact Int.dvd_sub (Int.dvd_mul_left ..) ((Int.natCast_dvd_natCast.mpr h).mul_right _)
    case inr =>
      have zero : x * stride % bound = 0 :=
        Int.emod_eq_zero_of_dvd ((Int.natCast_dvd_natCast.mpr h).mul_left x)
      exact zero ▸ Int.dvd_zero _

end Multiples

variable {s : FeatureSpace}

-- A stride that goes evenly into the buckets, or the buckets into it. Most do: the weights of a problem
-- have to be as many as a power of two, or else a multiple of the rows.
def Even (s : FeatureSpace) : Prop :=
  s.weights ∣ s.rows ∨ s.rows ∣ s.weights

theorem stride_eq (s : FeatureSpace) : s.stride = s.weights * Nat.pow 2 s.strideShift :=
  rfl

theorem size_eq (s : FeatureSpace) : s.size = s.rows * Nat.pow 2 s.strideShift :=
  Nat.pow_add 2 s.bits s.strideShift

theorem even_iff : s.Even ↔ s.stride ∣ s.size ∨ s.size ∣ s.stride := by
  have pos : 0 < Nat.pow 2 s.strideShift := Nat.pow_pos (by decide)
  rw [stride_eq, size_eq, Nat.mul_dvd_mul_iff_right pos, Nat.mul_dvd_mul_iff_right pos, Even]

-- Features are placed on multiples of the stride in just these layouts.
theorem aligned_place_iff : (∀ id, s.Aligned (s.place id)) ↔ s.Even := by
  rw [even_iff]
  exact dvd_mul_emod_iff s.size_pos

-- The buckets that a moved bucket can end up in: it has to fit in a word.
def window (s : FeatureSpace) : Nat :=
  min s.size wordSize.toNat

theorem window_pos (s : FeatureSpace) : 0 < s.window :=
  Nat.lt_min.mpr ⟨s.size_pos, by decide⟩

-- Both numbers are powers of two, so the smaller one divides the other.
theorem size_dvd_or_word_dvd (s : FeatureSpace) :
    s.size ∣ wordSize.toNat ∨ wordSize.toNat ∣ s.size := by
  have word : wordSize.toNat = Nat.pow 2 32 := rfl
  rw [word, size]
  obtain le | le := Nat.le_total (s.bits + s.strideShift) 32
  case inl => exact .inl (Nat.pow_dvd_pow 2 le)
  case inr => exact .inr (Nat.pow_dvd_pow 2 le)

theorem window_dvd_size (s : FeatureSpace) : s.window ∣ s.size := by
  obtain h | h := s.size_dvd_or_word_dvd
  case inl => rw [window, Nat.min_eq_left (Nat.le_of_dvd (by decide) h)]
  case inr => rwa [window, Nat.min_eq_right (Nat.le_of_dvd s.size_pos h)]

theorem fold_word (s : FeatureSpace) (bucket : Int) :
    s.fold (bucket % wordSize) = bucket % s.window := by
  have word : (wordSize.toNat : Int) = wordSize := rfl
  obtain h | h := s.size_dvd_or_word_dvd
  case inl =>
    rw [window, Nat.min_eq_left (Nat.le_of_dvd (by decide) h), fold]
    exact Int.emod_emod_of_dvd bucket (word ▸ Int.natCast_dvd_natCast.mpr h)
  case inr =>
    have le := Nat.le_of_dvd s.size_pos h
    have nonneg := Int.emod_nonneg bucket (b := wordSize) (by decide)
    have lt := Int.emod_lt_of_pos bucket (b := wordSize) (by decide)
    rw [window, Nat.min_eq_right le, fold, word]
    exact Int.emod_eq_of_lt nonneg (by omega)

theorem relocate_ok {bucket : Int} (h : s.Aligned bucket) (label : Int) : s.relocate bucket label =
    .ok ((bucket / s.stride + labelStride * label) * s.stride % s.window) := by
  simp only [relocate, h, if_true, fold_word]

theorem aligned_of_relocate {bucket label moved : Int} (h : s.relocate bucket label = .ok moved) :
    s.Aligned bucket := by
  by_contra misaligned
  simp [relocate, misaligned] at h

-- What is moved stays below the mask in every layout.
theorem relocate_range {bucket : Int} (h : s.Aligned bucket) (label : Int) :
    ∃ moved, s.relocate bucket label = .ok moved ∧ 0 ≤ moved ∧ moved ≤ s.mask :=
  ⟨_, if_pos h, s.fold_nonneg _, s.fold_le_mask _⟩

-- It stays on multiples of the stride if that goes evenly into the window, or the window into it.
theorem aligned_relocate_iff :
    (∀ bucket label moved, s.relocate bucket label = .ok moved → s.Aligned moved) ↔
      s.stride ∣ s.window ∨ s.window ∣ s.stride := by
  rw [← dvd_mul_emod_iff s.window_pos]
  constructor
  case mp =>
    intro h x
    have aligned : s.Aligned (x * s.stride) := Int.dvd_mul_left ..
    have moved := relocate_ok aligned 0
    have pos : (s.stride : Int) ≠ 0 := Int.natCast_ne_zero.mpr s.stride_pos.ne'
    rw [Int.mul_zero, Int.add_zero, Int.mul_ediv_cancel _ pos] at moved
    exact h _ _ _ moved
  case mpr =>
    intro h bucket label moved hr
    rw [relocate_ok (aligned_of_relocate hr)] at hr
    cases hr
    exact h _

-- A stride that goes evenly into the buckets is a power of two, as the window is.
theorem Even.window (h : s.Even) : s.stride ∣ s.window ∨ s.window ∣ s.stride := by
  obtain h | h := even_iff.mp h
  case inr => exact .inr (s.window_dvd_size.trans h)
  case inl =>
    have ⟨k, _, stride⟩ := (Nat.dvd_prime_pow Nat.prime_two).mp h
    have ⟨l, _, window⟩ := (Nat.dvd_prime_pow Nat.prime_two).mp s.window_dvd_size
    rw [stride, window]
    obtain le | le := Nat.le_total k l
    case inl => exact .inl (Nat.pow_dvd_pow 2 le)
    case inr => exact .inr (Nat.pow_dvd_pow 2 le)

end CollectiveLabeling.FeatureSpace
