import CollectiveLabeling.Proofs.Fault
import CollectiveLabeling.Proofs.FeatureSpace
import Mathlib.Data.Int.ModEq
import Mathlib.RingTheory.Coprime.Lemmas
import Mathlib.Tactic.Positivity

namespace CollectiveLabeling.FeatureSpace

variable {s : FeatureSpace} {bucket bucket' label label' : Int}

-- The bits of its row that a bucket keeps when it is moved. The stride takes up the lower bits of a
-- word, and there may be fewer left than a row has, or none.
def keptBits (s : FeatureSpace) : Nat :=
  min s.bits (32 - s.strideShift)

-- Where a label moves the row of a bucket.
def rowAt (s : FeatureSpace) (bucket label : Int) : Int :=
  (bucket / 2 ^ s.strideShift + labelStride * label) % 2 ^ s.keptBits

-- The stride of a problem with a single weight.
theorem stride_of_single (single : s.weights = 1) : (s.stride : Int) = 2 ^ s.strideShift := by
  have shift : Nat.pow 2 s.strideShift = 2 ^ s.strideShift := rfl
  rw [stride_eq, single, Nat.one_mul, shift, Nat.cast_pow, Nat.cast_ofNat]

theorem aligned_of_single (single : s.weights = 1) : s.Aligned bucket ↔ 2 ^ s.strideShift ∣ bucket := by
  rw [Aligned, stride_of_single single]

theorem window_eq (s : FeatureSpace) : s.window = 2 ^ min (s.bits + s.strideShift) 32 := by
  have size : s.size = 2 ^ (s.bits + s.strideShift) := rfl
  have word : wordSize.toNat = 2 ^ 32 := rfl
  rw [window, size, word]
  obtain le | le := Nat.le_total (s.bits + s.strideShift) 32
  case inl => rw [Nat.min_eq_left le, Nat.min_eq_left (Nat.pow_le_pow_right (by decide) le)]
  case inr => rw [Nat.min_eq_right le, Nat.min_eq_right (Nat.pow_le_pow_right (by decide) le)]

-- Past a word's end nothing is left but zero, and no bits are kept.
theorem mul_emod_window (s : FeatureSpace) (row : Int) :
    row * 2 ^ s.strideShift % s.window = 2 ^ s.strideShift * (row % 2 ^ s.keptBits) := by
  rw [window_eq, Nat.cast_pow, Nat.cast_ofNat, Int.mul_comm]
  obtain lt | le := Nat.lt_or_ge 32 s.strideShift
  case inl =>
    have whole : min (s.bits + s.strideShift) 32 ≤ s.strideShift := by omega
    have none : s.keptBits = 0 := by
      simp only [keptBits]
      omega
    rw [none, pow_zero, Int.emod_one, Int.mul_zero]
    exact Int.emod_eq_zero_of_dvd ((pow_dvd_pow 2 whole).mul_right row)
  case inr =>
    have split : min (s.bits + s.strideShift) 32 = s.strideShift + s.keptBits := by
      simp only [keptBits]
      omega
    rw [split, pow_add, Int.mul_emod_mul_of_pos _ _ (by positivity)]

theorem relocate_of_single (single : s.weights = 1) (h : 2 ^ s.strideShift ∣ bucket) (label : Int) :
    s.relocate bucket label = .ok (2 ^ s.strideShift * s.rowAt bucket label) := by
  rw [relocate_ok ((aligned_of_single single).mpr h), stride_of_single single, mul_emod_window, rowAt]

theorem rowAt_range (s : FeatureSpace) (bucket label : Int) :
    0 ≤ s.rowAt bucket label ∧ s.rowAt bucket label < s.rows := by
  have pos : (0 : Int) < 2 ^ s.keptBits := by positivity
  have le : (2 : Int) ^ s.keptBits ≤ s.rows := by
    have rows : s.rows = 2 ^ s.bits := rfl
    rw [rows, Nat.cast_pow, Nat.cast_ofNat]
    exact pow_le_pow_right₀ (by decide) (Nat.min_le_left ..)
  exact ⟨Int.emod_nonneg _ pos.ne', (Int.emod_lt_of_pos _ pos).trans_le le⟩

-- The policy reads what is moved at that row.
theorem row_moved (s : FeatureSpace) (bucket label : Int) :
    (s.row (2 ^ s.strideShift * s.rowAt bucket label) : Int) = s.rowAt bucket label := by
  have ⟨nonneg, lt⟩ := s.rowAt_range bucket label
  have pos : (2 : Int) ^ s.strideShift ≠ 0 := by positivity
  rw [row, Int.shiftRight_eq_div_pow, Nat.cast_pow, Nat.cast_ofNat, Int.mul_ediv_cancel_left _ pos,
    Int.emod_eq_of_lt nonneg lt, Int.toNat_of_nonneg nonneg]

theorem relocate_eq_relocate (single : s.weights = 1) (h : 2 ^ s.strideShift ∣ bucket)
    (h' : 2 ^ s.strideShift ∣ bucket') : s.relocate bucket label = s.relocate bucket' label' ↔
      s.rowAt bucket label = s.rowAt bucket' label' := by
  have pos : (2 : Int) ^ s.strideShift ≠ 0 := by positivity
  rw [relocate_of_single single h, relocate_of_single single h', Except.ok.injEq,
    Int.mul_eq_mul_left_iff pos]

-- An odd factor brings no two numbers together.
theorem mul_modEq_mul_iff {n : Nat} {k x y : Int} (odd : IsCoprime 2 k) :
    k * x ≡ k * y [ZMOD 2 ^ n] ↔ x ≡ y [ZMOD 2 ^ n] := by
  constructor
  case mp =>
    intro same
    have difference := same.dvd
    rw [← Int.mul_sub] at difference
    exact Int.modEq_iff_dvd.mpr (odd.pow_left.dvd_of_dvd_mul_left difference)
  case mpr => exact fun same => same.mul_left k

-- The label stride is odd, so no two labels meet before the rows are used up.
theorem rowAt_label_eq_iff :
    s.rowAt bucket label = s.rowAt bucket label' ↔ label ≡ label' [ZMOD 2 ^ s.keptBits] := by
  have odd : IsCoprime 2 labelStride := Int.isCoprime_iff_gcd_eq_one.mpr rfl
  rw [← mul_modEq_mul_iff odd]
  exact ⟨Int.ModEq.add_left_cancel' _, Int.ModEq.add_left _⟩

theorem rowAt_bucket_eq_iff : s.rowAt bucket label = s.rowAt bucket' label ↔
    bucket / 2 ^ s.strideShift ≡ bucket' / 2 ^ s.strideShift [ZMOD 2 ^ s.keptBits] :=
  ⟨Int.ModEq.add_right_cancel' _, Int.ModEq.add_right _⟩

-- So many labels keep apart as there are rows to move to.
theorem rowAt_distinct_iff (s : FeatureSpace) (bucket : Int) (labels : Nat) :
    (∀ k ≤ labels, ∀ k' ≤ labels, k ≠ k' → s.rowAt bucket k ≠ s.rowAt bucket k') ↔
      labels + 1 ≤ 2 ^ s.keptBits := by
  have congruent (k k' : Nat) : s.rowAt bucket k = s.rowAt bucket k' ↔ k ≡ k' [MOD 2 ^ s.keptBits] := by
    rw [rowAt_label_eq_iff, ← Int.natCast_modEq_iff, Nat.cast_pow, Nat.cast_ofNat]
  constructor
  case mp =>
    intro distinct
    by_contra many
    have pos : 2 ^ s.keptBits ≠ 0 := by positivity
    have around : 0 ≡ 2 ^ s.keptBits [MOD 2 ^ s.keptBits] := (Nat.mod_self _).symm
    exact distinct 0 (Nat.zero_le _) (2 ^ s.keptBits) (by omega) pos.symm ((congruent _ _).mpr around)
  case mpr =>
    intro few k hk k' hk' ne same
    exact ne (((congruent k k').mp same).eq_of_lt_of_lt (by omega) (by omega))

-- Which buckets the labels of the neighbors lead to, and when two of them are the same.
structure Spread (s : FeatureSpace) : Prop where
  moved   : ∀ bucket label, 2 ^ s.strideShift ∣ bucket →
    s.relocate bucket label = .ok (2 ^ s.strideShift * s.rowAt bucket label)
  row     : ∀ bucket label, s.row (2 ^ s.strideShift * s.rowAt bucket label) = s.rowAt bucket label
  labels  : ∀ bucket label label', 2 ^ s.strideShift ∣ bucket →
    (s.relocate bucket label = s.relocate bucket label' ↔ label ≡ label' [ZMOD 2 ^ s.keptBits])
  apart   : ∀ bucket (labels : Nat), 2 ^ s.strideShift ∣ bucket →
    ((∀ k ≤ labels, ∀ k' ≤ labels, k ≠ k' → s.relocate bucket k ≠ s.relocate bucket k') ↔
      labels + 1 ≤ 2 ^ s.keptBits)
  buckets : ∀ bucket bucket' label, 2 ^ s.strideShift ∣ bucket → 2 ^ s.strideShift ∣ bucket' →
    (s.relocate bucket label = s.relocate bucket' label ↔
      bucket / 2 ^ s.strideShift ≡ bucket' / 2 ^ s.strideShift [ZMOD 2 ^ s.keptBits])
  refused : ∀ bucket label, ¬2 ^ s.strideShift ∣ bucket → s.relocate bucket label =
    if bucket.natAbs < 10 ^ Decimal.digitLimit ∧ 2 ^ s.strideShift < 10 ^ Decimal.digitLimit then
      .error (.defect (.misaligned bucket (2 ^ s.strideShift)))
    else .error (.invalid (.unwritable Decimal.digitLimit))

theorem misplacement_of_single (single : s.weights = 1) (bucket : Int) : s.misplacement bucket =
    if bucket.natAbs < 10 ^ Decimal.digitLimit ∧ 2 ^ s.strideShift < 10 ^ Decimal.digitLimit then
      .defect (.misaligned bucket (2 ^ s.strideShift))
    else .invalid (.unwritable Decimal.digitLimit) := by
  have abs : ((2 : Int) ^ s.strideShift).natAbs = 2 ^ s.strideShift := Int.natAbs_pow 2 s.strideShift
  simp only [misplacement, Fault.raised, Fault.cited, Defect.cited, stride_of_single single,
    List.all_cons, List.all_nil, Bool.and_true, Bool.and_eq_true, Decimal.writable_iff, abs]

-- In a layout with a single weight a label moves a row by a multiple of an odd number, and of the row
-- as many bits are kept as fit in a word. Off the stride nothing is moved; that is a defect of the
-- material, unless one of the numbers it would cite is too long to be written.
theorem labels_spread (single : s.weights = 1) : s.Spread where
  moved   := fun _ label h => relocate_of_single single h label
  row     := s.row_moved
  labels  := fun _ _ _ h => (relocate_eq_relocate single h h).trans rowAt_label_eq_iff
  apart   := fun bucket labels h => by
    simp only [ne_eq, relocate_eq_relocate single h h]
    exact s.rowAt_distinct_iff bucket labels
  buckets := fun _ _ _ h h' => (relocate_eq_relocate single h h').trans rowAt_bucket_eq_iff
  refused := fun bucket label h => by
    have misaligned : ¬s.Aligned bucket := (aligned_of_single single).not.mpr h
    rw [relocate, if_neg misaligned, misplacement_of_single single, apply_ite Except.error]

-- The stride leaves two bits of a word, and sixteen rows share them.
theorem labels_spread_narrow :
    let s : FeatureSpace := { bits := 4, strideShift := 30, weights := 1, pairs := [] }
    s.Spread ∧ s.keptBits = 2 ∧ s.relocate 0 1 = s.relocate 0 5 ∧ s.relocate 0 1 ≠ s.relocate 0 2 := by
  intro s
  have spread : s.Spread := labels_spread rfl
  have meet : s.relocate 0 1 = s.relocate 0 5 := (spread.labels 0 1 5 (Int.dvd_zero _)).mpr (by decide)
  have part : s.relocate 0 1 ≠ s.relocate 0 2 := (spread.labels 0 1 2 (Int.dvd_zero _)).not.mpr (by decide)
  exact ⟨spread, rfl, meet, part⟩

-- A stride of more than four thousand digits cannot be cited.
theorem long_stride_not_cited :
    ∃ s, FeatureSpace.ofSettings { strideShift := 20000 } = .ok s ∧ s.weights = 1 ∧
      ¬2 ^ s.strideShift ∣ (1 : Int) ∧ s.relocate 1 1 = .error (.invalid (.unwritable Decimal.digitLimit)) ∧
      ∀ d, s.relocate 1 1 ≠ .error (.defect d) := by
  let s : FeatureSpace := { bits := 18, strideShift := 20000, weights := 1, pairs := [] }
  have long : 10 ^ Decimal.digitLimit ≤ 2 ^ s.strideShift := calc
    10 ^ Decimal.digitLimit ≤ (2 ^ 4) ^ Decimal.digitLimit := Nat.pow_le_pow_left (by decide) _
    _ = 2 ^ (4 * Decimal.digitLimit) := (pow_mul 2 4 _).symm
    _ ≤ 2 ^ s.strideShift := Nat.pow_le_pow_right (by decide) (by decide)
  have off : ¬2 ^ s.strideShift ∣ (1 : Int) := by
    intro h
    have even := (dvd_pow_self (2 : Int) (by decide : s.strideShift ≠ 0)).trans h
    exact absurd even (by decide)
  have refused : s.relocate 1 1 = .error (.invalid (.unwritable Decimal.digitLimit)) := by
    have misaligned : ¬s.Aligned 1 := (aligned_of_single rfl).not.mpr off
    rw [relocate, if_neg misaligned, misplacement_of_single rfl, if_neg fun h => h.right.not_ge long]
  exact ⟨s, rfl, rfl, off, refused, by simp [refused]⟩

end CollectiveLabeling.FeatureSpace
