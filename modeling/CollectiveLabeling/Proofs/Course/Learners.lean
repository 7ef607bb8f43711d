import CollectiveLabeling.Proofs.Apprentice.Agree
import CollectiveLabeling.Proofs.Course.Part
import CollectiveLabeling.Proofs.Neighborhood.Aligned

namespace CollectiveLabeling

open Step

theorem FeatureSpace.misplacement_ne_learner (s : FeatureSpace) (bucket id count : Int) :
    s.misplacement bucket ≠ .invalid (.learner id count) :=
  Fault.raised_ne nofun nofun

theorem Plan.schedule_split (plan : Plan) (order : List Nat) (l : Nat) : ∃ first later,
    plan.schedule order = first ++ later ∧ (∀ key ∈ first, key.1 ≤ l) ∧ ∀ key ∈ later, l < key.1 := by
  have passes : plan.passes = min (l + 1) plan.passes + (plan.passes - (l + 1)) := by omega
  refine ⟨Sweep.rounds order (List.range (min (l + 1) plan.passes)),
    Sweep.rounds order ((List.range (plan.passes - (l + 1))).map (min (l + 1) plan.passes + ·)),
    ?_, fun key hk => ?_, fun key hk => ?_⟩
  case refine_1 =>
    rw [schedule_eq_rounds, Sweep.rounds, Sweep.rounds, Sweep.rounds, ← List.flatMap_append, ← List.range_add, ← passes]
  case refine_2 =>
    have := List.mem_range.mp (Sweep.mem_rounds.mp hk).left
    omega
  case refine_3 =>
    obtain ⟨i, hi, he⟩ := List.mem_map.mp (Sweep.mem_rounds.mp hk).left
    have := List.mem_range.mp hi
    omega

namespace Hypergraph

variable {g : Hypergraph} {n : Int} {f : Fault}

theorem neighbors_error (h : g.neighbors n = .error f) : f = .outOfRange := by
  obtain hi | ⟨es, _, h⟩ := Attempt.bind_eq_error.mp h
  case inl => exact lookup_error hi
  case inr =>
    obtain hm | ⟨_, _, h⟩ := Attempt.bind_eq_error.mp h
    case inr => cases h
    case inl =>
      have ⟨_, _, he⟩ := Attempt.exists_of_mapM_eq_error hm
      exact others_error (Attempt.map_eq_error.mp he)

end Hypergraph

namespace Course

variable {c : Course Apprentice} {i n : Nat} {plan : Plan} {f : Fault}

def withPolicy (c : Course Apprentice) (policy : Perceptron Float32) : Course Apprentice :=
  { c with mind := c.mind.withPolicy policy }

theorem question_withPolicy (policy : Perceptron Float32) :
    (c.withPolicy policy).question plan i n = c.question plan i n :=
  rfl

theorem rested_withPolicy (policy : Perceptron Float32) :
    (c.withPolicy policy).rested n = (c.rested n).withPolicy policy := by
  simp only [rested]
  have wants : Decider.wantsInput (c.withPolicy policy).mind = Decider.wantsInput c.mind := rfl
  rw [wants]
  split <;> rfl

theorem view_error (h : c.view n = .error f) : c.bench.augmenter.Stuck c.bench.graph f := by
  obtain node | ⟨r, _, h⟩ := Attempt.bind_eq_error.mp h
  case inl => exact .inl (Hypergraph.lookup_error node)
  case inr =>
    split at h
    case isFalse => cases h
    case isTrue => exact Augmenter.lent_stuck (Attempt.map_eq_error.mp h)

-- If no question can be asked, that has nothing to do with the learners.
theorem question_error (h : c.question plan i n = .error f) :
    c.bench.augmenter.Stuck c.bench.graph f := by
  obtain view | ⟨_, _, h⟩ := Attempt.bind_eq_error.mp h
  case inl => exact view_error view
  case inr =>
    obtain near | ⟨_, _, h⟩ := Attempt.bind_eq_error.mp h
    case inl => exact .inl (Hypergraph.neighbors_error near)
    case inr => cases h

end Course

namespace Decision

-- What there is to learn from a decision.
def lesson? (plan : Plan) (d : Decision Apprentice) : Option (Lesson Float32) :=
  (d.question plan).toOption.bind d.start.mind.lesson?

-- The lessons of one pass, in the order in which they come up.
def lessons (plan : Plan) (ds : List (Decision Apprentice)) (l : Nat) : List (Lesson Float32) :=
  (ds.filter (·.pass = l)).filterMap (lesson? plan)

-- The apprentice after a decision.
def after (labels : Nat) (plan : Plan) (d : Decision Apprentice) : Apprentice :=
  (outcome (Course.decideNode labels plan d.pass d.node) d.start).2.mind

def withPolicy (d : Decision Apprentice) (policy : Perceptron Float32) : Decision Apprentice :=
  { d with start := d.start.withPolicy policy }

-- What can be seen of a decision: when it is taken, what is answered, and what there is to learn.
def trace (plan : Plan) (d : Decision Apprentice) :
    (Nat × Nat) × Except Fault Int × Option (Lesson Float32) :=
  (d.key, d.answer plan, d.lesson? plan)

variable {plan : Plan} {ds ds' : List (Decision Apprentice)} {l : Nat}

theorem lessons_single (plan : Plan) (d : Decision Apprentice) :
    lessons plan [d] = fun l => if l = d.pass then (d.lesson? plan).toList else [] := by
  funext l
  by_cases h : d.pass = l
  case pos => cases hl : d.lesson? plan <;> simp [lessons, h, hl]
  case neg => simp [lessons, h, Ne.symm h]

theorem lessons_cons (plan : Plan) (d : Decision Apprentice) (ds : List (Decision Apprentice)) (l : Nat) :
    lessons plan (d :: ds) l = lessons plan [d] l ++ lessons plan ds l := by
  simp only [lessons, ← List.filterMap_append, ← List.filter_append, List.singleton_append]

theorem lessons_of_trace (h : ds'.map (trace plan) = ds.map (trace plan)) (l : Nat) :
    lessons plan ds' l = lessons plan ds l := by
  have seen (ds : List (Decision Apprentice)) : lessons plan ds l =
      ((ds.map (trace plan)).filter (·.1.1 = l)).filterMap (·.2.2) := by
    rw [List.filter_map, List.filterMap_map]
    rfl
  rw [seen, seen, h]

theorem lessons_filter {i : Nat} (h : i ≤ l) :
    lessons plan (ds.filter (·.pass ≤ l)) i = lessons plan ds i := by
  rw [lessons, List.filter_filter, lessons]
  refine congrArg _ (List.filter_congr fun d _ => ?_)
  by_cases own : d.pass = i <;> simp [own, h]

end Decision

namespace Course

open Decision

variable {c w : Course Apprentice} {labels passes i n : Nat} {plan : Plan} {I : Nat → Prop} {q : Query}

section Schedule

variable {σ : Type} [Decider σ] {c : Course σ} {first later schedule : List (Nat × Nat)} {l : Nat}

theorem decisions_append : decisions labels plan (first ++ later) c =
    decisions labels plan first c ++ match follow labels plan first c with
      | .ok _ c' => decisions labels plan later c'
      | .error _ _ => [] := by
  induction first generalizing c
  case nil => rfl
  case cons key first hi =>
    obtain ⟨i, n⟩ := key
    simp only [List.cons_append, decisions, follow_cons]
    cases decideNode labels plan i n c
    case ok => exact congrArg _ hi
    case error => rfl

theorem key_mem_of_decisions {d : Decision σ} (hd : d ∈ decisions labels plan schedule c) :
    d.key ∈ schedule := by
  induction schedule generalizing c
  case nil => cases hd
  case cons key schedule hi =>
    obtain rfl | hd := List.mem_cons.mp hd
    case inl => exact List.mem_cons_self
    case inr =>
      cases h : decideNode labels plan key.1 key.2 c <;> simp only [h] at hd
      case ok => exact List.mem_cons_of_mem _ (hi hd)
      case error => cases hd

theorem filter_decisions (early : ∀ key ∈ first, key.1 ≤ l) (late : ∀ key ∈ later, l < key.1) :
    (decisions labels plan (first ++ later) c).filter (·.pass ≤ l) = decisions labels plan first c := by
  have kept : (decisions labels plan first c).filter (·.pass ≤ l) = decisions labels plan first c :=
    List.filter_eq_self.mpr fun d hd => decide_eq_true (early d.key (key_mem_of_decisions hd))
  rw [decisions_append, List.filter_append, kept]
  cases follow labels plan first c
  case error => simp
  case ok c' =>
    have dropped : (decisions labels plan later c').filter (·.pass ≤ l) = [] := by
      refine List.filter_eq_nil_iff.mpr fun d hd le => ?_
      exact Nat.not_le_of_lt (late d.key (key_mem_of_decisions hd)) (of_decide_eq_true le)
    simp only [dropped, List.append_nil]

end Schedule

section Separate

variable (separate : plan.separateLearners = true)
include separate

-- In every pass a learner of its own is asked.
theorem addressed (known : i < c.mind.policy.learners.size) (hq : c.question plan i n = .ok q) :
    Apprentice.Addressed i c.mind q := by
  obtain ⟨r, near, _, _, rfl⟩ := question_eq_ok.mp hq
  have learner : (queryFor plan i n r near).learner = some (i : Int) := by
    simp only [queryFor, separate, if_true]
  exact ⟨by rw [learner, Option.getD_some], known, names_queryFor plan i n r near⟩

theorem outcome_decide (known : i < c.mind.policy.learners.size) (hq : c.question plan i n = .ok q) :
    outcome (Decider.decide q) c.mind = (c.mind.reply q, c.mind.answered i q) :=
  (addressed separate known hq).outcome_decide

theorem answer_eq {d : Decision Apprentice} (known : d.pass < d.start.mind.policy.learners.size) :
    d.answer plan = d.question plan >>= d.start.mind.reply := by
  simp only [Decision.answer]
  cases hq : d.question plan
  case error => rfl
  case ok q => exact congrArg Prod.fst (outcome_decide separate known hq)

-- What a decision of a pass comes to.
theorem outcome_decideNode (idle : c.Idle) (known : i < c.mind.policy.learners.size) :
    outcome (decideNode labels plan i n) c = match c.question plan i n with
      | .error f => (.error f, c.rested n)
      | .ok q => match c.mind.reply q with
        | .error f => (.error f, { c.rested n with mind := c.mind.answered i q })
        | .ok label =>
          if 1 ≤ label ∧ label ≤ labels then (.ok ⟨⟩, { c.rested n with
            mind := c.mind.answered i q, pred := c.pred.setIfInBounds n label })
          else (.error (Fault.raised (.defect (.answerOutside label labels n))),
            { c.rested n with mind := c.mind.answered i q }) := by
  simp only [outcome, decideNode_eq labels plan i n idle]
  cases hq : c.question plan i n
  case error => rfl
  case ok q =>
    have decided := outcome_decide separate known hq
    cases hd : Decider.decide q c.mind
    all_goals
      simp only [outcome, hd, Prod.mk.injEq] at decided
      simp only [hd, ← decided.left, ← decided.right]
    case ok label mind => by_cases range : 1 ≤ label ∧ label ≤ labels <;> simp [range]

theorem policy_decideNode (idle : c.Idle) (known : i < c.mind.policy.learners.size) :
    (outcome (decideNode labels plan i n) c).2.mind.policy =
      c.mind.policy.schooled (lessons plan [⟨i, n, c⟩]) := by
  rw [mind_decideNode labels plan i n idle, lessons_single]
  cases hq : c.question plan i n
  case error =>
    simp only [lesson?, Decision.question, hq, Except.toOption, Option.bind_none, Option.toList_none,
      ite_self, Perceptron.schooled_nil]
  case ok q =>
    simp only [outcome_decide separate known hq, lesson?, Decision.question, hq, Except.toOption,
      Option.bind_some]
    rfl

-- What is learned in a run is learned by the learner of its pass, in the order of the decisions.
theorem policy_follow (idle : c.Idle) {schedule : List (Nat × Nat)}
    (known : ∀ key ∈ schedule, key.1 < c.mind.policy.learners.size) :
    (outcome (follow labels plan schedule) c).2.mind.policy =
      c.mind.policy.schooled (lessons plan (decisions labels plan schedule c)) := by
  induction schedule generalizing c
  case nil => exact c.mind.policy.schooled_nil.symm
  case cons key schedule hi =>
    obtain ⟨i, n⟩ := key
    have first : (outcome (decideNode labels plan i n) c).2.mind.policy = _ :=
      policy_decideNode separate idle (known (i, n) (by simp))
    have cons (ds : List (Decision Apprentice)) : lessons plan (⟨i, n, c⟩ :: ds) =
        fun l => lessons plan [⟨i, n, c⟩] l ++ lessons plan ds l :=
      funext (lessons_cons plan ⟨i, n, c⟩ ds)
    simp only [outcome, follow_cons, decisions] at first ⊢
    cases hd : decideNode labels plan i n c <;> simp only [hd] at first ⊢
    case error => exact first
    case ok c' =>
      obtain ⟨_, decided⟩ := decideNode_ok idle hd
      have rest := hi (decided.idle idle) fun key hk => by
        rw [first, Perceptron.schooled_size]
        exact known key (by simp [hk])
      rw [cons, ← Perceptron.schooled_schooled, ← first, ← rest]
      rfl

-- Two courses that only differ in learners that are none of these.
structure Agree (I : Nat → Prop) (passes : Nat) (c w : Course Apprentice) : Prop where
  idle   : c.Idle
  known  : passes ≤ c.mind.policy.learners.size
  policy : ∃ policy, w = c.withPolicy policy ∧ c.mind.policy.AgreeOn I policy

theorem Agree.trace (h : Agree I passes c w) (hi : I i) (lt : i < passes) :
    (Decision.mk i n w).trace plan = (Decision.mk i n c).trace plan := by
  obtain ⟨_, le, policy, rfl, agree⟩ := h
  have known : i < c.mind.policy.learners.size := Nat.lt_of_lt_of_le lt le
  have known' : i < (c.withPolicy policy).mind.policy.learners.size := agree.size ▸ known
  have answer : (Decision.mk i n c).answer plan = c.question plan i n >>= c.mind.reply :=
    answer_eq separate known
  have answer' : (Decision.mk i n (c.withPolicy policy)).answer plan =
      c.question plan i n >>= (c.mind.withPolicy policy).reply := answer_eq separate known'
  have question : (Decision.mk i n c).question plan = c.question plan i n := rfl
  have question' : (Decision.mk i n (c.withPolicy policy)).question plan = c.question plan i n := rfl
  simp only [Decision.trace, answer, answer', Decision.lesson?, question, question']
  cases hq : c.question plan i n
  case error => rfl
  case ok q =>
    have addressed := addressed separate known hq
    have reply := addressed.reply_withPolicy agree hi
    have lesson := addressed.lesson?_withPolicy agree hi
    exact congrArg₂ Prod.mk rfl (congrArg₂ Prod.mk reply lesson)

-- In a pass of theirs, they take the same decisions.
theorem agree_decideNode (labels n : Nat) (hi : I i) (lt : i < passes) :
    Together (Agree I passes) (decideNode labels plan i n) (decideNode labels plan i n) := by
  intro c w ⟨idle, le, policy, hw, agree⟩
  subst hw
  have known : i < c.mind.policy.learners.size := Nat.lt_of_lt_of_le lt le
  have known' : i < (c.withPolicy policy).mind.policy.learners.size := agree.size ▸ known
  have idle' : (c.withPolicy policy).Idle := idle
  have rested : (c.rested n).Idle := rested_idle idle n
  rw [outcome_decideNode separate idle known, outcome_decideNode separate idle' known',
    question_withPolicy, rested_withPolicy]
  cases hq : c.question plan i n
  case error => exact ⟨rfl, rested, by rwa [rested_mind], policy, rfl, by rwa [rested_mind]⟩
  case ok q =>
    have addressed := addressed separate known hq
    have reply : (c.withPolicy policy).mind.reply q = c.mind.reply q :=
      addressed.reply_withPolicy agree hi
    have answered : (c.withPolicy policy).mind.answered i q = _ := addressed.answered_withPolicy agree hi
    have le : passes ≤ (c.mind.answered i q).policy.learners.size :=
      le.trans_eq (Perceptron.schooled_size ..).symm
    have agree : (c.mind.answered i q).policy.AgreeOn I _ := agree.schooled fun _ _ => rfl
    simp only [reply, answered]
    cases c.mind.reply q
    case error => exact ⟨rfl, rested, le, _, rfl, agree⟩
    case ok label =>
      by_cases range : 1 ≤ label ∧ label ≤ labels <;> simp only [range, and_self, if_true, if_false]
      case pos => exact ⟨trivial, rested, le, _, rfl, agree⟩
      case neg => exact ⟨trivial, rested, le, _, rfl, agree⟩

section Single

variable {d : Decision Apprentice} (known : d.pass < d.start.mind.policy.learners.size)
include known

theorem not_fails_learner (id count : Int) : ¬d.Fails labels plan (.invalid (.learner id count)) := by
  intro fails
  generalize unknown : Fault.invalid (.learner id count) = f at fails
  cases fails
  case outside => exact Fault.raised_ne (by simp) (by simp) unknown.symm
  case unanswered answer =>
    subst unknown
    rw [answer_eq separate known] at answer
    obtain hq | ⟨q, hq, hr⟩ := Attempt.bind_eq_error.mp answer
    case inl =>
      obtain outside | ⟨_, _, x, _, _, misplaced⟩ := question_error hq
      case inl => cases outside
      case inr => exact FeatureSpace.misplacement_ne_learner _ _ _ _ misplaced.symm
    case inr => cases (addressed separate known hq).reply_error hr

variable (idle : d.start.Idle)
include idle

-- A decision is up to the learner of its pass, and so is what becomes of that learner.
theorem agree_of_own {policy : Perceptron Float32}
    (agree : d.start.mind.policy.AgreeOn (· = d.pass) policy) :
    (d.withPolicy policy).trace plan = d.trace plan ∧
      (d.after labels plan).policy.AgreeOn (· = d.pass) ((d.withPolicy policy).after labels plan).policy := by
  have same : Agree (· = d.pass) (d.pass + 1) d.start (d.start.withPolicy policy) :=
    ⟨idle, known, policy, rfl, agree⟩
  have together : Together (Agree (· = d.pass) (d.pass + 1)) (decideNode labels plan d.pass d.node)
      (decideNode labels plan d.pass d.node) :=
    agree_decideNode separate labels d.node rfl (Nat.lt_succ_self _)
  obtain ⟨_, _, policy', hp, agree'⟩ := (together _ _ same).right
  refine ⟨same.trace separate rfl (Nat.lt_succ_self _), ?_⟩
  have policy : ((d.withPolicy policy).after labels plan).policy = policy' := congrArg (·.mind.policy) hp
  exact policy ▸ agree'

-- It leaves all other learners as they are.
theorem agree_of_other : d.start.mind.policy.AgreeOn (· ≠ d.pass) (d.after labels plan).policy := by
  have policy : (d.after labels plan).policy = d.start.mind.policy.schooled (lessons plan [d]) :=
    policy_decideNode separate idle known
  rw [policy, lessons_single]
  exact Perceptron.agreeOn_schooled fun i other => if_neg other

end Single

theorem traces_agree {schedule : List (Nat × Nat)} (hs : ∀ key ∈ schedule, I key.1 ∧ key.1 < passes)
    (h : Agree I passes c w) : (decisions labels plan schedule w).map (Decision.trace plan) =
      (decisions labels plan schedule c).map (Decision.trace plan) := by
  induction schedule generalizing c w
  case nil => rfl
  case cons key schedule hi =>
    obtain ⟨i, n⟩ := key
    have ⟨own, lt⟩ := hs (i, n) (by simp)
    have rest {c w : Course Apprentice} (h : Agree I passes c w) := hi (fun key hk => hs key (by simp [hk])) h
    simp only [decisions, List.map_cons, h.trace separate own lt]
    obtain ⟨_, _, _, hd, hd', h'⟩ | ⟨_, _, _, hd, hd', _⟩ :=
      (agree_decideNode separate labels n own lt).ends h
    case inl => simp only [hd, hd', rest h']
    case inr => simp only [hd, hd', List.map_nil]

-- The passes up to one go the same way, whatever the learners of later passes are.
theorem traces_agree_upTo {order : List Nat} {l : Nat}
    (h : Agree (· ≤ l) plan.passes c w) :
    ((decisions labels plan (plan.schedule order) w).filter (·.pass ≤ l)).map (Decision.trace plan) =
      ((decisions labels plan (plan.schedule order) c).filter (·.pass ≤ l)).map (Decision.trace plan) := by
  have ⟨first, later, schedule, early, late⟩ := plan.schedule_split order l
  have passes : ∀ key ∈ first, key.1 ≤ l ∧ key.1 < plan.passes := fun key hk =>
    ⟨early key hk, (Plan.mem_schedule.mp (schedule ▸ List.mem_append_left _ hk)).left⟩
  rw [schedule, filter_decisions early late, filter_decisions early late]
  exact traces_agree separate passes h

end Separate
end Course
end CollectiveLabeling
