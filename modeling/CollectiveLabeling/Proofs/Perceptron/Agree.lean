import CollectiveLabeling.Proofs.Perceptron.Lesson

namespace CollectiveLabeling.Perceptron

variable {α : Type} {I : Nat → Prop} {p p' : Perceptron α} {l : Nat}

-- Two policies that differ in their learners at most, and agree on these.
def AgreeOn (I : Nat → Prop) (p p' : Perceptron α) : Prop :=
  ∃ ls, p' = p.withLearners ls ∧ ls.size = p.learners.size ∧ ∀ i : Nat, I i → ls[i]? = p.learners[i]?

namespace AgreeOn

theorem refl (p : Perceptron α) : p.AgreeOn I p :=
  ⟨p.learners, rfl, rfl, fun _ _ => rfl⟩

theorem size (h : p.AgreeOn I p') : p'.learners.size = p.learners.size := by
  obtain ⟨ls, rfl, size, _⟩ := h
  exact size

end AgreeOn

variable [OfNat α 0] [Add α] [Sub α] [Mul α] [Neg α]

-- The policy after each of its learners has got lessons of its own.
def schooled (p : Perceptron α) (lessons : Nat → List (Lesson α)) : Perceptron α :=
  p.withLearners (p.learners.mapIdx fun i l => (lessons i).foldl (Learner.taught p.rate) l)

variable {f g : Nat → List (Lesson α)}

theorem schooled_size (p : Perceptron α) (f : Nat → List (Lesson α)) :
    (p.schooled f).learners.size = p.learners.size :=
  Array.size_mapIdx

theorem schooled_nil (p : Perceptron α) : p.schooled (fun _ => []) = p := by
  have same : p.learners.mapIdx (fun _ l => l) = p.learners :=
    Array.ext (by simp) fun i _ _ => Array.getElem_mapIdx _
  simp only [schooled, List.foldl_nil, same]

theorem schooled_schooled (p : Perceptron α) (f g : Nat → List (Lesson α)) :
    (p.schooled f).schooled g = p.schooled fun i => f i ++ g i := by
  simp only [schooled, Array.mapIdx_mapIdx, Function.comp_def, List.foldl_append]

-- The lessons of a single learner.
theorem schooled_single (p : Perceptron α) (l : Nat) (lessons : List (Lesson α)) :
    p.schooled (fun i => if i = l then lessons else []) =
      p.withLearners (p.learners.modify l fun x => lessons.foldl (Learner.taught p.rate) x) := by
  have same : (p.learners.mapIdx fun i x =>
      (if i = l then lessons else []).foldl (Learner.taught p.rate) x) =
      p.learners.modify l fun x => lessons.foldl (Learner.taught p.rate) x := by
    refine Array.ext (by simp) fun i _ _ => ?_
    rw [Array.getElem_mapIdx, Array.getElem_modify]
    by_cases h : l = i
    case pos => rw [if_pos h.symm, if_pos h]
    case neg => rw [if_neg (Ne.symm h), if_neg h, List.foldl_nil]
  rw [schooled, same]

-- Learners that are alike and get the same lessons stay alike.
theorem AgreeOn.schooled (h : p.AgreeOn I p') (lessons : ∀ i, I i → f i = g i) :
    (p.schooled f).AgreeOn I (p'.schooled g) := by
  obtain ⟨ls, rfl, size, agree⟩ := h
  have size' : (ls.mapIdx fun i l => (g i).foldl (Learner.taught p.rate) l).size =
      (p.learners.mapIdx fun i l => (f i).foldl (Learner.taught p.rate) l).size := by
    rw [Array.size_mapIdx, Array.size_mapIdx, size]
  have agree' (i : Nat) (hi : I i) : (ls.mapIdx fun i l => (g i).foldl (Learner.taught p.rate) l)[i]? =
      (p.learners.mapIdx fun i l => (f i).foldl (Learner.taught p.rate) l)[i]? := by
    rw [Array.getElem?_mapIdx, Array.getElem?_mapIdx, agree i hi, lessons i hi]
  exact ⟨_, rfl, size', agree'⟩

theorem agreeOn_schooled (none : ∀ i, I i → f i = []) : p.AgreeOn I (p.schooled f) := by
  have agree : (p.schooled fun _ => []).AgreeOn I (p.schooled f) :=
    (AgreeOn.refl p).schooled fun i hi => (none i hi).symm
  rwa [schooled_nil] at agree

omit [Sub α] [Neg α] in
-- A score is that of a single learner.
theorem AgreeOn.scores (h : p.AgreeOn I p') (hl : I l) (known : l < p.learners.size)
    (input : List (Int × α)) :
    Vector.toList <$> p'.scores l input = Vector.toList <$> p.scores l input := by
  obtain ⟨ls, rfl, size, agree⟩ := h
  have known' : l < ls.size := size ▸ known
  have same : ls[l] = p.learners[l] := by
    have := agree l hl
    rwa [Array.getElem?_eq_getElem known', Array.getElem?_eq_getElem known, Option.some.injEq] at this
  have learner : (p.withLearners p.learners).learnerAt l = .ok ⟨l, known⟩ := learnerAt_natCast known
  have learner' : (p.withLearners ls).learnerAt l = .ok ⟨l, known'⟩ := learnerAt_natCast known'
  have row (r : Int) : (p.withLearners ls).rowAt r = p.rowAt r := rfl
  simp only [Perceptron.scores, learner, learner', row, Attempt.ok_bind, Fin.getElem_fin, same]

end CollectiveLabeling.Perceptron
