import CollectiveLabeling.Proofs.Confusion
import Mathlib.Algebra.Order.Field.Rat
import Mathlib.Data.List.Forall2
import Mathlib.Data.List.Nodup
import Mathlib.Tactic.NormNum

namespace CollectiveLabeling

namespace Confusion

variable {c : Confusion} {counts : Nat → Nat} {k : Nat}

-- A table in which no label was taken for another. Zero is no label.
def Diagonal (c : Confusion) (counts : Nat → Nat) : Prop :=
  ∀ t p, c.count t p = if t = p ∧ 0 < t then counts t else 0

theorem sumOf_zero {xs : List Nat} {f : Nat → Nat} (h : ∀ x ∈ xs, f x = 0) : sumOf (xs.map f) = 0 := by
  induction xs
  case nil => rfl
  case cons x xs hi =>
    have rest := hi fun x hx => h x (by simp [hx])
    simp only [sumOf, List.map_cons, List.foldr_cons] at rest ⊢
    rw [rest, h x (by simp)]

-- Only one of the numbers is not zero.
theorem sumOf_single {xs : List Nat} {f : Nat → Nat} (distinct : xs.Nodup) (hk : k ∈ xs)
    (others : ∀ x ∈ xs, x ≠ k → f x = 0) : sumOf (xs.map f) = f k := by
  induction xs
  case nil => cases hk
  case cons x xs hi =>
    have ⟨new, distinct⟩ := List.nodup_cons.mp distinct
    simp only [sumOf, List.map_cons, List.foldr_cons] at hi ⊢
    obtain rfl | hk := List.mem_cons.mp hk
    case inl =>
      have rest := sumOf_zero fun x hx => others x (by simp [hx]) fun he => new (he ▸ hx)
      simp only [sumOf] at rest
      rw [rest, Nat.add_zero]
    case inr =>
      rw [hi distinct hk fun x hx => others x (by simp [hx]),
        others x (by simp) fun he => new (he ▸ hk), Nat.zero_add]

theorem mem_labelRange : k ∈ c.labelRange ↔ 0 < k ∧ k < c.side := by
  simp only [labelRange, List.mem_map, List.mem_range]
  exact ⟨fun ⟨j, hj, he⟩ => by omega, fun ⟨pos, lt⟩ => ⟨k - 1, by omega, by omega⟩⟩

theorem nodup_labelRange (c : Confusion) : c.labelRange.Nodup :=
  List.Nodup.map (fun _ _ h => Nat.succ.inj h) List.nodup_range

theorem f1_self (pos : 0 < k) : (f1 k k k : Rat) = 1 := by
  have cast : (Scale.ofCount k : Rat) ≠ 0 := Nat.cast_ne_zero.mpr (Nat.ne_of_gt pos)
  have one : (Scale.ofCount k : Rat) / Scale.ofCount k = 1 := div_self cast
  simp only [f1, Nat.ne_of_gt pos, if_false, one]
  change (((2 : Nat) : Rat) * 1 * 1) / (1 + 1) = 1
  norm_num

theorem foldl_add_ones (count : Nat) (start : Rat) :
    (List.replicate count (1 : Rat)).foldl (· + ·) start = start + count := by
  induction count generalizing start
  case zero => simp
  case succ count hi =>
    rw [List.replicate_succ, List.foldl_cons, hi]
    rw [Nat.cast_succ, add_assoc, add_comm 1]

namespace Diagonal

variable (h : c.Diagonal counts)
include h

theorem count_self (pos : 0 < k) : c.count k k = counts k := by
  rw [h, if_pos ⟨rfl, pos⟩]

theorem count_ne {t p : Nat} (ne : t ≠ p) : c.count t p = 0 := by
  rw [h, if_neg fun he => ne he.left]

theorem trueCount (hk : k ∈ c.labelRange) : c.trueCount k = counts k := by
  rw [Confusion.trueCount, sumOf_single c.nodup_labelRange hk fun p _ ne => h.count_ne ne.symm,
    h.count_self (mem_labelRange.mp hk).left]

theorem predictedCount (hk : k ∈ c.labelRange) : c.predictedCount k = counts k := by
  rw [Confusion.predictedCount, sumOf_single c.nodup_labelRange hk fun t _ ne => h.count_ne ne,
    h.count_self (mem_labelRange.mp hk).left]

-- Every label that occurs is always recognized.
theorem f1Of (hk : k ∈ c.occurring) : (c.f1Of k : Rat) = 1 := by
  have ⟨hk, occurs⟩ := List.mem_filter.mp hk
  have pos : 0 < counts k := by
    rw [h.trueCount hk] at occurs
    exact Nat.pos_of_ne_zero (by simpa using occurs)
  rw [Confusion.f1Of, h.count_self (mem_labelRange.mp hk).left, h.trueCount hk, h.predictedCount hk,
    f1_self pos]

theorem macroF1 : (c.macroF1 : Rat) = if c.occurring = [] then 0 else 1 := by
  simp only [Confusion.macroF1, List.isEmpty_iff]
  split
  case isTrue => rfl
  case isFalse occurs =>
    have ones : c.occurring.map (c.f1Of (α := Rat)) = List.replicate c.occurring.length 1 :=
      List.map_eq_replicate_iff.mpr fun k hk => h.f1Of hk
    have length : (c.occurring.length : Rat) ≠ 0 :=
      Nat.cast_ne_zero.mpr fun he => occurs (List.eq_nil_of_length_eq_zero he)
    have sum := foldl_add_ones c.occurring.length 0
    rw [zero_add] at sum
    rw [ones]
    exact (congrArg (· / (c.occurring.length : Rat)) sum).trans (div_self length)

theorem mem_occurring : k ∈ c.occurring ↔ (0 < k ∧ k < c.side) ∧ counts k ≠ 0 := by
  simp only [Confusion.occurring, List.mem_filter, decide_eq_true_eq]
  rw [and_congr_left_iff.mpr fun _ => mem_labelRange]
  exact and_congr_right fun hk => by rw [h.trueCount (mem_labelRange.mpr hk)]

-- In exact arithmetic nothing is lost if any label occurs, and all if none does.
theorem loss_of_occurs (hk : 0 < k ∧ k < c.side) (occurs : counts k ≠ 0) :
    (1 : Rat) - c.macroF1 = 0 := by
  have mem := h.mem_occurring.mpr ⟨hk, occurs⟩
  rw [h.macroF1, if_neg (List.ne_nil_of_mem mem), sub_self]

theorem loss_of_none (none : ∀ k, 0 < k → k < c.side → counts k = 0) : (1 : Rat) - c.macroF1 = 1 := by
  have empty : c.occurring = [] := by
    refine List.eq_nil_iff_forall_not_mem.mpr fun k hk => ?_
    have ⟨⟨pos, lt⟩, occurs⟩ := h.mem_occurring.mp hk
    exact occurs (none k pos lt)
  rw [h.macroF1, if_pos empty, sub_zero]

end Diagonal
end Confusion

namespace Scene

-- Given labels that are right wherever there is a right one.
theorem tallied_of_right {labels given : List Int}
    (right : List.Forall₂ (fun x y => 0 < x → y = x) labels given) (t p : Nat) :
    tallied (labels.zip given) t p = if t = p ∧ 0 < t then labels.count (t : Int) else 0 := by
  induction right
  case nil => simp [tallied]
  case cons x y labels given first _ hi =>
    rw [List.zip_cons_cons, tallied_cons, hi, List.count_cons]
    by_cases here : x = (t : Int) ∧ 0 < t
    case pos =>
      obtain ⟨rfl, pos⟩ := here
      have same : y = (p : Int) ↔ t = p := by rw [first (by omega)]; exact Int.ofNat_inj
      by_cases ht : t = p
      case pos =>
        subst ht
        simp [pos, same]
      case neg => simp [same, ht]
    case neg =>
      have other : ¬(0 < t ∧ x = t ∧ y = p) := fun h => here ⟨h.right.left, h.left⟩
      rw [if_neg other, Nat.add_zero]
      by_cases ht : t = p ∧ 0 < t
      case pos =>
        have ne : x ≠ (t : Int) := fun he => here ⟨he, ht.right⟩
        rw [if_pos ht, if_pos ht, if_neg (by simpa using ne), Nat.add_zero]
      case neg => rw [if_neg ht, if_neg ht]

end Scene
end CollectiveLabeling
