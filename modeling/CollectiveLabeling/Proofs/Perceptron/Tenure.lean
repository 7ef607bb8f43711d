import CollectiveLabeling.Proofs.Perceptron.Lesson
import Mathlib.Data.List.Induction

namespace CollectiveLabeling

open Step

variable {α : Type}

namespace Perceptron

-- The pairs of rows and values that an update takes: one value serves all rows, and otherwise every
-- row has a value of its own.
def paired (rows : List Int) : List α → Option (List (Int × α))
  | [value] => some (rows.map (·, value))
  | values  => if rows = [] ∨ rows.length = values.length then some (rows.zip values) else none

-- What can be asked of a policy.
inductive Call (α : Type) where
  | resize (count : Int)
  | update (learner : Int) (rows : List Int) (values : List α) (target predicted : Int)

namespace Call

-- What a call has to teach a learner, if it is addressed to it.
def lesson? (i : Nat) : Call α → Option (Lesson α)
  | resize _ => none
  | update learner rows values target predicted =>
    if learner = i then (paired rows values).map (⟨·, target, predicted⟩) else none

-- An update names a learner, rows, and labels that the policy has.
def Fits (p : Perceptron α) : Call α → Prop
  | resize _ => True
  | update learner rows _ target predicted =>
    (0 ≤ learner ∧ learner < p.learners.size) ∧ (∀ row ∈ rows, 0 ≤ row ∧ row < p.space.rows) ∧
      (1 ≤ target ∧ target ≤ p.labels) ∧ (1 ≤ predicted ∧ predicted ≤ p.labels)

instance : (c : Call α) → (p : Perceptron α) → Decidable (c.Fits p)
  | resize _, _ => inferInstanceAs (Decidable True)
  | update .., _ => inferInstanceAs (Decidable (_ ∧ _))

variable [OfNat α 0] [Add α] [Sub α] [Mul α] [Neg α]

def step : Call α → Step (Perceptron α) Unit
  | resize count => modify (·.resize count)
  | update learner rows values target predicted => spreadUpdate learner rows values target predicted

def next (p : Perceptron α) (c : Call α) : Perceptron α :=
  (c.step.outcome p).2

end Call

section Paired

variable {rows : List Int} {values : List α} {input : List (Int × α)}

theorem spread_of_paired (h : paired rows values = some input) : spread rows values = .ok input := by
  unfold paired at h
  split at h
  case h_1 value =>
    cases h
    cases rows <;> simp [spread]
  case h_2 several =>
    split at h <;> cases h
    case isTrue len =>
    match rows with
    | [] => rfl
    | [row] =>
      have ⟨value, hv⟩ := List.length_eq_one_iff.mp (len.resolve_left (by simp)).symm
      exact absurd hv (several value)
    | row :: row' :: rows => simp [spread, len.resolve_left]

theorem fst_mem_of_paired (h : paired rows values = some input) {x : Int × α} (hx : x ∈ input) :
    x.1 ∈ rows := by
  unfold paired at h
  split at h
  case h_1 =>
    cases h
    have ⟨row, hr, he⟩ := List.mem_map.mp hx
    exact he ▸ hr
  case h_2 =>
    split at h <;> cases h
    exact (List.of_mem_zip hx).left

theorem length_of_paired (h : paired rows values = some input) (nonempty : rows ≠ []) :
    values.length = rows.length ∨ values.length = 1 := by
  unfold paired at h
  split at h
  case h_1 => exact .inr rfl
  case h_2 =>
    split at h <;> cases h
    case isTrue len => exact .inl (len.resolve_left nonempty).symm

theorem length_of_not_paired (h : paired rows values = none) :
    rows ≠ [] ∧ values.length ≠ rows.length ∧ values.length ≠ 1 := by
  unfold paired at h
  split at h
  case h_1 => cases h
  case h_2 several =>
    split at h <;> cases h
    case isFalse other =>
    have ⟨nonempty, len⟩ := not_or.mp other
    refine ⟨nonempty, Ne.symm len, fun one => ?_⟩
    have ⟨value, hv⟩ := List.length_eq_one_iff.mp one
    exact several value hv

end Paired

section After

variable [OfNat α 0] [Add α] [Sub α] [Mul α] [Neg α]

-- A call that fails does not keep the later ones from being made.
def after (p : Perceptron α) (cs : List (Call α)) : Perceptron α :=
  cs.foldl Call.next p

-- Every call fits the policy that the calls before it leave behind.
def Fit : Perceptron α → List (Call α) → Prop
  | _, []      => True
  | p, c :: cs => c.Fits p ∧ Fit (c.next p) cs

instance : (p : Perceptron α) → (cs : List (Call α)) → Decidable (p.Fit cs)
  | _, []      => isTrue trivial
  | p, c :: cs =>
    have := instDecidableFit (c.next p) cs
    inferInstanceAs (Decidable (_ ∧ _))

-- Learner `i` came into being by the last of the earlier calls, or with the policy, and has been there
-- ever since.
structure Tenure (p : Perceptron α) (i : Nat) (earlier later : List (Call α)) : Prop where
  rise : earlier = [] ∨ ∃ before c, earlier = before ++ [c] ∧ (p.after before).learners.size ≤ i
  held : ∀ part, part <+: later → i < (p.after (earlier ++ part)).learners.size

-- The first learners, and new ones as needed.
def regrown {labels : Nat} (ls : Array (Learner α labels)) (count : Nat) : Array (Learner α labels) :=
  Array.ofFn fun i : Fin count => ls[i.val]?.getD .zero

-- What the learners of a policy hold after some calls: each one the lessons of its own tenure, whatever
-- the others have learned and however often their number has changed.
structure Remembered (p : Perceptron α) (cs : List (Call α)) (ls : Array (Learner α p.labels)) :
    Prop where
  after    : p.after cs = p.withLearners ls
  tenure   : ∀ i < ls.size, ∃ earlier later, cs = earlier ++ later ∧ p.Tenure i earlier later
  lessons  : ∀ i earlier later, cs = earlier ++ later → p.Tenure i earlier later →
    ls[i]? = some ((later.filterMap (Call.lesson? i)).foldl (Learner.taught p.rate) .zero)
  resized  : ∀ count, p.after (cs ++ [.resize count]) = p.withLearners (regrown ls (max count 1).toNat)
  returned : ∀ count count', p.after (cs ++ [.resize count, .resize count']) =
    p.withLearners (Array.ofFn fun i : Fin (max count' 1).toNat =>
      if i.val < (max count 1).toNat then ls[i.val]?.getD .zero else .zero)

variable {p : Perceptron α} {ls : Array (Learner α p.labels)} {i : Nat} {cs : List (Call α)}

omit [Add α] [Sub α] [Mul α] [Neg α] in
theorem regrown_size {labels : Nat} (ls : Array (Learner α labels)) : regrown ls ls.size = ls := by
  refine Array.ext (by simp [regrown]) fun i _ hi => ?_
  simp [regrown]

omit [Add α] [Sub α] [Mul α] [Neg α] in
theorem take_append_replicate {labels : Nat} (ls : Array (Learner α labels)) (count : Nat) :
    ls.take count ++ Array.replicate (count - ls.size) .zero = regrown ls count := by
  refine Array.ext (by simp [regrown]; omega) fun i _ hi => ?_
  simp only [regrown, Array.size_ofFn] at hi
  by_cases old : i < ls.size
  case pos =>
    have kept : i < min count ls.size := by omega
    simp [regrown, kept, old]
  case neg =>
    have new : ¬i < min count ls.size := by omega
    simp [regrown, Array.getElem_append, old, new]

omit [Add α] [Sub α] [Mul α] [Neg α] in
theorem regrown_regrown {labels : Nat} (ls : Array (Learner α labels)) (count count' : Nat) :
    regrown (regrown ls count) count' =
      Array.ofFn fun i : Fin count' => if i.val < count then ls[i.val]?.getD .zero else .zero := by
  refine Array.ext (by simp [regrown]) fun i _ _ => ?_
  by_cases kept : i < count <;> simp [regrown, kept]

omit [Add α] [Sub α] [Mul α] [Neg α] in
-- Growing keeps the learners that there are, and shrinking keeps the first of them.
theorem resize_withLearners (count : Int) :
    (p.withLearners ls).resize count = p.withLearners (regrown ls (max count 1).toNat) := by
  simp only [resize, take_append_replicate]
  split
  case isTrue same => rw [same, regrown_size]
  case isFalse => rfl

omit [Add α] [Sub α] [Mul α] [Neg α] in
theorem resize_size (p : Perceptron α) (count : Int) :
    (p.resize count).learners.size = (max count 1).toNat := by
  have resized : (p.withLearners p.learners).resize count = _ := resize_withLearners count
  rw [resized, regrown, Array.size_ofFn]

section Update

variable {rows : List Int} {values : List α} {target predicted : Int}

theorem spreadUpdate_ok {input : List (Int × α)} (hp : paired rows values = some input)
    (hi : i < ls.size) (inside : ∀ row ∈ rows, 0 ≤ row ∧ row < p.space.rows)
    (ht : 1 ≤ target ∧ target ≤ p.labels) (hl : 1 ≤ predicted ∧ predicted ≤ p.labels) :
    spreadUpdate i rows values target predicted (p.withLearners ls) =
      .ok ⟨⟩ (p.withLearners (ls.modify i (Learner.taught p.rate · ⟨input, target, predicted⟩))) := by
  have ⟨_, target_found⟩ := fin?_pred ht
  have ⟨_, predicted_found⟩ := fin?_pred hl
  have paired_inside : ∀ x ∈ (Lesson.mk input target predicted).input, 0 ≤ x.1 ∧ x.1 < p.space.rows :=
    fun x hx => inside x.1 (fst_mem_of_paired hp hx)
  have updated := update_ok hi paired_inside target_found predicted_found
  have rest : (do update i (← lift (spread rows values)) target predicted) (p.withLearners ls) = _ :=
    (bind_ok (lift_eq_ok.mpr ⟨spread_of_paired hp, rfl⟩)).trans updated
  by_cases right : target = predicted
  case pos => simpa [spreadUpdate, update, right] using updated
  case neg =>
    simp only [spreadUpdate, right, if_false]
    by_cases nonempty : rows = []
    case pos => simpa only [nonempty, List.isEmpty_nil, Bool.not_true, Bool.false_eq_true, if_false] using rest
    case neg =>
      have some_row : (!rows.isEmpty) = true := by simpa using nonempty
      have lengths := length_of_paired hp nonempty
      rw [if_pos some_row]
      refine (bind_ok rfl).trans <| (bind_ok (lift_eq_ok.mpr ⟨learnerAt_natCast hi, rfl⟩)).trans ?_
      rw [if_neg (by simp; omega)]
      exact rest

-- Values that cannot be paired with the rows are not learned from.
theorem outcome_spreadUpdate_of_not_paired (hp : paired rows values = none) (hi : i < ls.size) :
    ((spreadUpdate i rows values target predicted).outcome (p.withLearners ls)).2 =
      p.withLearners ls := by
  by_cases right : target = predicted
  case pos => simp [spreadUpdate, right, outcome]
  case neg =>
    obtain ⟨nonempty, unequal, several⟩ := length_of_not_paired hp
    have some_row : (!rows.isEmpty) = true := by simpa using nonempty
    refine congrArg Prod.snd (outcome_error (e := .unequalLengths).mpr ?_)
    simp only [spreadUpdate, right, if_false, some_row, if_true]
    refine (bind_ok rfl).trans <| (bind_ok (lift_eq_ok.mpr ⟨learnerAt_natCast hi, rfl⟩)).trans ?_
    rw [if_pos (by simp [unequal, several])]
    rfl

end Update

-- A call makes room, or teaches the learner it is addressed to.
theorem next_withLearners {c : Call α} (fits : c.Fits (p.withLearners ls)) :
    ∃ ls', c.next (p.withLearners ls) = p.withLearners ls' ∧ ∀ i < ls'.size, ls'[i]? =
      some (ls[i]?.elim .zero ((c.lesson? i).toList.foldl (Learner.taught p.rate))) := by
  cases c
  case resize count =>
    refine ⟨_, resize_withLearners count, fun i hi => ?_⟩
    simp only [regrown, Array.size_ofFn] at hi
    simp [regrown, Call.lesson?, hi]
    cases ls[i]? <;> rfl
  case update learner rows values target predicted =>
    have ⟨⟨nonneg, lt⟩, inside, ht, hl⟩ := fits
    obtain ⟨k, rfl⟩ := Int.eq_ofNat_of_zero_le nonneg
    have hk : k < ls.size := Int.ofNat_lt.mp lt
    cases hp : paired rows values
    case none =>
      refine ⟨ls, outcome_spreadUpdate_of_not_paired hp hk, fun i hi => ?_⟩
      simp [Call.lesson?, hp, hi]
    case some input =>
      refine ⟨_, congrArg Prod.snd (outcome_ok.mpr (spreadUpdate_ok hp hk inside ht hl)), fun i hi => ?_⟩
      rw [Array.size_modify] at hi
      rw [Array.getElem?_modify, Array.getElem?_eq_getElem hi]
      by_cases own : k = i
      case pos => simp [Call.lesson?, hp, own]
      case neg =>
        have none : (Call.update k rows values target predicted).lesson? i = none := if_neg (by omega)
        simp [none, own]

theorem after_append (p : Perceptron α) (cs : List (Call α)) (c : Call α) :
    p.after (cs ++ [c]) = c.next (p.after cs) := by
  simp [after]

theorem fit_append {c : Call α} : p.Fit (cs ++ [c]) ↔ p.Fit cs ∧ c.Fits (p.after cs) := by
  induction cs generalizing p
  case nil => simp [Fit, after]
  case cons c' cs hi =>
    simp only [List.cons_append, Fit, hi, and_assoc]
    rfl

namespace Tenure

-- After one more call, a learner's tenure lasts, or begins with that call.
theorem of_append {c : Call α} {earlier later : List (Call α)} (he : cs ++ [c] = earlier ++ later)
    (tenure : p.Tenure i earlier later) :
    (later = [] ∧ (p.after cs).learners.size ≤ i) ∨
      ∃ part, later = part ++ [c] ∧ cs = earlier ++ part ∧ p.Tenure i earlier part := by
  cases later using List.reverseRecOn
  case nil =>
    obtain none | ⟨before, c', rfl, new⟩ := tenure.rise
    case inl => simp [none] at he
    case inr =>
      have ⟨same, _⟩ := List.append_inj' (he.trans (List.append_nil _)) rfl
      exact .inl ⟨rfl, same ▸ new⟩
  case append_singleton part c' _ =>
    rw [← List.append_assoc] at he
    have ⟨same, last⟩ := List.append_inj' he rfl
    cases last
    have sub : part <+: part ++ [c] := List.prefix_append part [c]
    exact .inr ⟨part, rfl, same, ⟨tenure.rise, fun _ h => tenure.held _ (h.trans sub)⟩⟩

-- Every learner that is there has been there since some call, or since there is the policy.
theorem exists_of_lt (hi : i < (p.after cs).learners.size) :
    ∃ earlier later, cs = earlier ++ later ∧ p.Tenure i earlier later := by
  induction cs using List.reverseRecOn
  case nil =>
    refine ⟨[], [], rfl, .inl rfl, fun part h => ?_⟩
    rwa [List.prefix_nil.mp h]
  case append_singleton cs c hi' =>
    by_cases old : i < (p.after cs).learners.size
    case pos =>
      obtain ⟨earlier, later, rfl, tenure⟩ := hi' old
      refine ⟨earlier, later ++ [c], by simp, tenure.rise, fun part h => ?_⟩
      obtain rfl | h := List.prefix_concat_iff.mp h
      case inl => rwa [← List.append_assoc]
      case inr => exact tenure.held part h
    case neg =>
      refine ⟨cs ++ [c], [], by simp, .inr ⟨cs, c, rfl, Nat.le_of_not_lt old⟩, fun part h => ?_⟩
      rwa [List.prefix_nil.mp h, List.append_nil]

end Tenure

theorem exists_lessons {space : FeatureSpace} {labels learners : Int} {rate : α}
    (hp : create labels space learners rate = .ok p) (fit : p.Fit cs) :
    ∃ ls, p.after cs = p.withLearners ls ∧ ∀ i earlier later, cs = earlier ++ later →
      p.Tenure i earlier later →
      ls[i]? = some ((later.filterMap (Call.lesson? i)).foldl (Learner.taught p.rate) .zero) := by
  induction cs using List.reverseRecOn
  case nil =>
    refine ⟨p.learners, rfl, fun i earlier later he tenure => ?_⟩
    obtain ⟨rfl, rfl⟩ := List.nil_eq_append_iff.mp he
    have lt : i < p.learners.size := tenure.held [] List.prefix_rfl
    simp only [create] at hp
    split at hp <;> cases hp
    simp only [Array.size_replicate] at lt
    simp [lt]
  case append_singleton cs c hi =>
    have ⟨fit, fits⟩ := fit_append.mp fit
    have ⟨ls, hls, lessons⟩ := hi fit
    rw [hls] at fits
    have ⟨ls', hls', step⟩ := next_withLearners fits
    have after : p.after (cs ++ [c]) = p.withLearners ls' := by rw [after_append, hls, hls']
    refine ⟨ls', after, fun i earlier later he tenure => ?_⟩
    have lt : i < ls'.size := by
      have := tenure.held later List.prefix_rfl
      rwa [← he, after] at this
    rw [step i lt]
    obtain ⟨rfl, new⟩ | ⟨part, rfl, rfl, lasting⟩ := tenure.of_append he
    case inl =>
      rw [hls] at new
      simp [Array.getElem?_eq_none new]
    case inr =>
      rw [lessons i earlier part rfl lasting]
      cases hc : c.lesson? i <;> simp [hc]

theorem resizing_keeps_lessons {space : FeatureSpace} {labels learners : Int} {rate : α}
    (hp : create labels space learners rate = .ok p) (fit : p.Fit cs) :
    ∃ ls, p.Remembered cs ls := by
  have ⟨ls, after, lessons⟩ := exists_lessons hp fit
  have resized (count : Int) :
      p.after (cs ++ [.resize count]) = p.withLearners (regrown ls (max count 1).toNat) := by
    rw [after_append, after]
    exact resize_withLearners count
  refine ⟨ls, after, fun i hi => Tenure.exists_of_lt (after ▸ hi), lessons, resized, fun count count' => ?_⟩
  rw [← regrown_regrown, ← resize_withLearners, ← resized count, List.append_cons, after_append]
  rfl

-- The second learner learns something, is dropped, comes back, and learns something else.
theorem resizing_keeps_lessons_sample :
    let p : Perceptron Int := { labels := 2, space := .standard, rate := 1, learners := #[.zero, .zero] }
    let cs := [.update 1 [3] [5] 1 2, .resize (-1), .resize 2, .update 1 [3, 4] [7] 2 1]
    ∃ ls, p.Remembered cs ls := by
  intro p cs
  have made : create 2 .standard 2 1 = .ok p := rfl
  have fit : p.Fit cs := by decide +kernel
  exact resizing_keeps_lessons made fit

end After
end Perceptron
end CollectiveLabeling
