import CollectiveLabeling.Fault
import Mathlib.Algebra.Group.Nat.Defs

namespace CollectiveLabeling

namespace Decimal

variable {n : Int}

theorem writable_iff : writable n = true ↔ n.natAbs < 10 ^ digitLimit := by
  unfold writable
  rw [decide_eq_true_eq, Nat.pow_eq]

theorem natAbs_lt_of_lt (h : n.natAbs < 10) : n.natAbs < 10 ^ digitLimit := by
  have ten_le (count : Nat) (pos : 1 ≤ count) : 10 ≤ 10 ^ count := Nat.le_self_pow (by omega) 10
  exact Nat.lt_of_lt_of_le h (ten_le digitLimit (by decide))

theorem writable_of_lt (h : n.natAbs < 10) : writable n = true :=
  writable_iff.mpr (natAbs_lt_of_lt h)

end Decimal

namespace Fault

variable {f g : Fault}

theorem raised_of_writable (h : ∀ n ∈ f.cited, Decimal.writable n = true) : f.raised = f :=
  if_pos (List.all_eq_true.mpr h)

theorem raised_of_unwritable (h : ∃ n ∈ f.cited, ¬Decimal.writable n = true) :
    f.raised = .invalid (.unwritable Decimal.digitLimit) :=
  if_neg (by simpa using h)

theorem raised_defect (d : Defect) : raised (.defect d) =
    if ∀ n ∈ d.cited, n.natAbs < 10 ^ Decimal.digitLimit then .defect d
    else .invalid (.unwritable Decimal.digitLimit) := by
  simp only [raised, cited, List.all_eq_true, Decimal.writable_iff]

-- What is thrown is the fault itself, or there was no text for it.
theorem raised_eq (f : Fault) :
    f.raised = f ∨ f.raised = .invalid (.unwritable Decimal.digitLimit) := by
  simp only [raised]
  split
  case isTrue => exact .inl rfl
  case isFalse => exact .inr rfl

theorem raised_ne (ne : f ≠ g) (ne' : g ≠ .invalid (.unwritable Decimal.digitLimit)) : f.raised ≠ g := by
  cases f.raised_eq
  case inl same => rwa [same]
  case inr same => rw [same]; exact ne'.symm

end Fault
end CollectiveLabeling
