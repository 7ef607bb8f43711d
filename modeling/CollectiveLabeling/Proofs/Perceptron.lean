import CollectiveLabeling.Labeling
import CollectiveLabeling.Perceptron
import CollectiveLabeling.Proofs.Step

namespace CollectiveLabeling

namespace Perceptron

-- A condition whose name is a single character has a row within the table, and no other has any.
theorem conditionRow_ok (space : FeatureSpace) {name : String} (label : Int) (h : name.length = 1) :
    ∃ row, conditionRow space name label = .ok row ∧ row < space.rows := by
  have ⟨c, hc⟩ := List.length_eq_one_iff.mp (name.length_toList ▸ h)
  have below (x : Int) : (x % space.rows).toNat < Nat.pow 2 space.bits := by
    have pos : (0 : Int) < space.rows := Int.natCast_pos.mpr space.rows_pos
    have nonneg := Int.emod_nonneg x (Int.ne_of_gt pos)
    have lt := Int.emod_lt_of_pos x pos
    simp only [FeatureSpace.rows] at nonneg lt ⊢
    omega
  exact ⟨_, by simp only [conditionRow, hc]; rfl, Nat.xor_lt_two_pow (below _) (below _)⟩

theorem conditionRow_error (space : FeatureSpace) {name : String} (label : Int) (h : name.length ≠ 1) :
    conditionRow space name label = .error .notOneCharacter := by
  unfold conditionRow
  split
  case h_1 c hc => simp [← name.length_toList, hc] at h
  case h_2 => rfl

theorem featurize_ok (space : FeatureSpace) (r : Record) {conditions : List (String × Int)}
    (names : ∀ x ∈ conditions, x.1.length = 1) :
    ∃ input, featurize space r conditions = .ok input ∧ ∀ x ∈ input, x.1 < space.rows := by
  refine Attempt.exists_bind_eq_ok (Attempt.exists_mapM_eq_ok_and (P := (· < space.rows))
    fun x hx => conditionRow_ok space x.2 (names x hx)) fun rows bound => ⟨_, rfl, fun x hx => ?_⟩
  cases List.mem_append.mp hx
  case inl hx =>
    obtain ⟨f, _, he⟩ := List.mem_map.mp hx
    exact he ▸ space.row_lt f.bucket
  case inr hx =>
    obtain ⟨row, hm, he⟩ := List.mem_map.mp hx
    exact he ▸ bound row hm

theorem featurize_error (space : FeatureSpace) (r : Record) {conditions : List (String × Int)}
    (name : ∃ x ∈ conditions, x.1.length ≠ 1) :
    featurize space r conditions = .error .notOneCharacter := by
  have ⟨x, hx, ne⟩ := name
  have refused := Attempt.mapM_eq_error (f := fun (x : String × Int) => conditionRow space x.1 x.2)
    ⟨x, hx, conditionRow_error space x.2 ne⟩ fun y _ e he => by
      by_cases single : y.1.length = 1
      case pos =>
        have ⟨_, found, _⟩ := conditionRow_ok space y.2 single
        cases found.symm.trans he
      case neg =>
        cases (conditionRow_error space y.2 single).symm.trans he
        rfl
  simp only [featurize, refused, Attempt.error_bind]

-- The best score is one of them.
theorem best_lt {xs : List Float32} (h : xs ≠ []) :
    ∃ place, best xs = some place ∧ place < xs.length := by
  cases xs
  case nil => exact absurd rfl h
  case cons x rest =>
    have fold (pairs : List (Float32 × Nat)) (size : Nat) (start : Float32 × Nat)
        (hs : start.2 < size) (hp : ∀ x ∈ pairs, x.2 + 1 < size) :
        (pairs.foldl (fun best x => if better best.1 x.1 then (x.1, x.2 + 1) else best) start).2 <
          size := by
      induction pairs generalizing start
      case nil => exact hs
      case cons y pairs hi =>
        rw [List.foldl_cons]
        refine hi _ ?_ fun x hx => hp x (by simp [hx])
        split
        case isTrue => exact hp y (by simp)
        case isFalse => exact hs
    refine ⟨_, rfl, fold _ _ _ (by simp) fun y hy => ?_⟩
    have := List.mem_zipIdx hy
    simp only [List.length_cons]
    omega

section Scores

variable {p : Perceptron Float32} {learner : Int} {input : List (Int × Float32)}

theorem scores_of_learnerAt {i : Fin p.learners.size} (found : p.learnerAt learner = .ok i)
    (rows : ∀ x ∈ input, 0 ≤ x.1 ∧ x.1 < p.space.rows) :
    ∃ scores, p.scores learner input = .ok scores := by
  have ⟨placed, hp⟩ := Attempt.exists_mapM_eq_ok
    (f := fun (x : Int × Float32) => (·, x.2) <$> p.rowAt x.1) fun x (hx : x ∈ input) => by
      have ⟨nonneg, lt⟩ := rows x hx
      obtain ⟨k, hk⟩ := Int.eq_ofNat_of_zero_le nonneg
      have lt : k < p.space.rows := by omega
      exact ⟨(k, x.2), by simp [rowAt, hk, Index.place?_natCast lt]⟩
  exact ⟨_, by simp only [scores, found, hp, Attempt.ok_bind]; rfl⟩

theorem scores_ok (nonneg : 0 ≤ learner) (lt : learner < p.learners.size)
    (rows : ∀ x ∈ input, 0 ≤ x.1 ∧ x.1 < p.space.rows) :
    ∃ scores, p.scores learner input = .ok scores := by
  obtain ⟨k, rfl⟩ := Int.eq_ofNat_of_zero_le nonneg
  have lt : k < p.learners.size := by omega
  exact scores_of_learnerAt (i := ⟨k, lt⟩) (by simp [learnerAt, Index.fin?_natCast lt]) rows

end Scores
end Perceptron
end CollectiveLabeling
