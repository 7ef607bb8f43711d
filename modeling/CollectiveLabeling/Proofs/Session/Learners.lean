import CollectiveLabeling.Proofs.Course.Learners
import CollectiveLabeling.Proofs.Perceptron.Tenure
import CollectiveLabeling.Proofs.Session.Course

namespace CollectiveLabeling

open Step

namespace Course

variable {c c' : Course Apprentice} {labels : Nat} {plan : Plan} {schedule : List (Nat × Nat)}

-- Whatever is decided, there is the learner that is asked.
theorem known_of_reached (idle : c.Idle)
    (known : ∀ key ∈ schedule, key.1 < c.mind.policy.learners.size) {d : Decision Apprentice}
    (hd : d ∈ decisions labels plan schedule c) :
    d.start.Idle ∧ d.pass < d.start.mind.policy.learners.size := by
  have ⟨_, chain, _⟩ := (ends labels plan schedule idle).reached hd
  have size := chain.mind (Apprentice.keeps_size c.mind.policy.learners.size) rfl
  have lt := known d.key (key_mem_of_decisions hd)
  exact ⟨chain.idle idle, lt.trans_eq size.symm⟩

end Course

namespace Session

variable {s₀ s t : Session Apprentice} {place : Option Nat} {g : Hypergraph} {order : List Nat}

def policy (s : Session Apprentice) : Perceptron Float32 :=
  s.scene.host.mind.policy

def withPolicy (s : Session Apprentice) (policy : Perceptron Float32) : Session Apprentice :=
  { s with scene := { s.scene with host := { s.scene.host with
    mind := s.scene.host.mind.withPolicy policy } } }

-- The life of a session, as long as nobody but its labeling sets the number of learners. Whether the
-- apprentice learns or is being tested may change at any time.
inductive Undisturbed (s : Session Apprentice) : Session Apprentice → Prop
  | refl : Undisturbed s s
  | move {t : Session Apprentice} (m : Move) : Undisturbed s t →
      Undisturbed s ((Session.move m).outcome t).2
  | surroundings {t : Session Apprentice} {host : Host Apprentice} {clock : Clock}
      {entries : Array Entry} : Undisturbed s t →
      host.mind.policy.learners.size = t.policy.learners.size →
      Undisturbed s { t with scene := Scene.noted { t.scene with host } clock entries }

-- There is a learner for every pass.
structure Staffed (s : Session Apprentice) : Prop where
  sound : s.scene.labeling.Sound
  size  : s.policy.learners.size = s.scene.labeling.plan.passes

theorem Opened.staffed (opened : s.Opened) (separate : s.scene.labeling.plan.separateLearners = true) :
    s.Staffed := by
  have ⟨_, host, started⟩ := opened.started
  refine ⟨started.sound, ?_⟩
  have policy : s.policy = host.mind.policy.resize s.scene.labeling.plan.passes := by
    rw [Session.policy, started.host, if_pos separate]
    rfl
  have resized := host.mind.policy.resize_size s.scene.labeling.plan.passes
  have pos := s.scene.labeling.plan.passes_pos
  rw [policy, resized]
  omega

theorem Undisturbed.staffed (h : s₀.Undisturbed s) (staffed : s₀.Staffed) :
    s.Staffed ∧ s.scene.labeling.plan = s₀.scene.labeling.plan := by
  induction h
  case refl => exact ⟨staffed, rfl⟩
  case move m _ hi =>
    have ⟨staffed, plan⟩ := hi
    have kept := kept_move staffed.sound m
    have size := kept.mind _ (Apprentice.keeps_size _) staffed.size
    exact ⟨⟨kept.sound, size.trans (congrArg Plan.passes kept.plan.symm)⟩, kept.plan.trans plan⟩
  case surroundings size hi =>
    have ⟨staffed, plan⟩ := hi
    exact ⟨⟨{ staffed.sound with }, size.trans staffed.size⟩, plan⟩

-- Episodes that are worked through disturb nothing.
theorem Undisturbed.runEpisode (h : s₀.Undisturbed s) (place : Option Nat) :
    s₀.Undisturbed (outcome (runEpisode place) s).2 := by
  have forgotten : s₀.Undisturbed s.forgotten :=
    @Undisturbed.surroundings _ s s.forgotten.scene.host s.scene.clock s.scene.labeling.entries h rfl
  have setup := Undisturbed.move (.setup place) forgotten
  rw [outcome_move] at setup
  rw [outcome_runEpisode]
  cases hs : Session.setup place s.forgotten <;> simp only [outcome, hs] at setup ⊢
  case error => exact setup
  case ok _ t =>
    have run := Undisturbed.move .run setup
    rw [outcome_move] at run
    have takedown := Undisturbed.move .takedown run
    rwa [outcome_move] at takedown

-- What becomes of the mind by an episode that is accepted.
theorem Accepted.mind_runEpisode (h : s.Accepted place g order) :
    (outcome (runEpisode place) s).2.scene.host.mind =
      (outcome (Course.follow s.scene.labeling.labels s.scene.labeling.plan
        (s.scene.labeling.plan.schedule order)) (s.opening g)).2.mind := by
  have ⟨t, hs, sound, hf, labels, plan, confusion, _, opening⟩ := h.setup
  have ⟨k, hk⟩ := Option.isSome_iff_exists.mp (confusion ▸ h.unfinished)
  rw [outcome_runEpisode, hs]
  simp only [cleared_host, outcome_run, shelve_scene]
  rw [← opening, ← labels, ← plan]
  cases Scene.ran sound hf hk
  case failed hw _ hr =>
    rw [outcome_error.mpr hr]
    exact congrArg (fun o => o.2.mind) (outcome_error.mpr hw).symm
  case done hw _ _ _ hr =>
    rw [outcome_ok.mpr hr]
    exact congrArg (fun o => o.2.mind) (outcome_ok.mpr hw).symm

-- An episode that is not accepted leaves the policy alone.
theorem policy_of_not_accepted (sound : s.scene.labeling.Sound)
    (h : ¬∃ g order, s.Accepted place g order) :
    s.reached place = [] ∧ (outcome (runEpisode place) s).2.policy = s.policy := by
  have none : s.reached place = [] :=
    List.eq_nil_iff_forall_not_mem.mpr fun d hd => h (accepted_of_reached sound hd)
  refine ⟨none, ?_⟩
  rw [outcome_runEpisode]
  cases Scene.setUp (s := s.forgotten.scene) { sound with } (s.forgotten.episode place)
  case refused hs =>
    rw [setup_error hs]
    rfl
  case accepted g order clock entries hg ho _ hs =>
    cases hk : s.scene.labeling.confusion
    case some => exact absurd ⟨g, order, sound, by simp [hk], hg, ho⟩ h
    case none =>
      have finished := Scene.run_finished (s := ((s.forgotten.scene.withPrior
        (s.forgotten.scene.bookedPrior g)).withFrame
          (s.forgotten.scene.labeling.frameOf g order)).noted clock entries) rfl hk
      rw [setup_ok hs]
      simp only [Session.policy, cleared_host, outcome_run, shelve_scene, outcome_error.mpr finished]
      rfl

theorem Staffed.known_of_reached (h : s.Staffed) {d : Decision Apprentice} (hd : d ∈ s.reached place) :
    d.start.Idle ∧ d.pass < d.start.mind.policy.learners.size := by
  have ⟨g, order, accepted⟩ := accepted_of_reached h.sound hd
  rw [accepted.reached] at hd
  refine Course.known_of_reached accepted.idle (fun key hk => ?_) hd
  exact (Plan.mem_schedule.mp hk).left.trans_eq h.size.symm

section Separate

variable (separate : s.scene.labeling.plan.separateLearners = true)
include separate

-- An episode teaches each learner what comes up in its pass.
theorem Staffed.policy_runEpisode (h : s.Staffed) (place : Option Nat) :
    (s.after [place]).policy =
      s.policy.schooled (Decision.lessons s.scene.labeling.plan (s.reached place)) := by
  by_cases accepted : ∃ g order, s.Accepted place g order
  case pos =>
    have ⟨g, order, accepted⟩ := accepted
    have known : ∀ key ∈ s.scene.labeling.plan.schedule order,
        key.1 < (s.opening g).mind.policy.learners.size := fun key hk =>
      (Plan.mem_schedule.mp hk).left.trans_eq h.size.symm
    rw [accepted.reached]
    exact (congrArg Apprentice.policy accepted.mind_runEpisode).trans
      (Course.policy_follow separate accepted.idle known)
  case neg =>
    have ⟨nothing, policy⟩ := policy_of_not_accepted h.sound accepted
    rw [nothing]
    exact policy.trans s.policy.schooled_nil.symm

-- What the first passes of an episode decide and teach is up to their learners.
theorem Staffed.traces_agree (h : s.Staffed) {l : Nat} {policy : Perceptron Float32}
    (agree : s.policy.AgreeOn (· ≤ l) policy) :
    (((s.withPolicy policy).reached place).filter (·.pass ≤ l)).map
        (Decision.trace s.scene.labeling.plan) =
      ((s.reached place).filter (·.pass ≤ l)).map (Decision.trace s.scene.labeling.plan) := by
  by_cases accepted : ∃ g order, s.Accepted place g order
  case pos =>
    have ⟨g, order, accepted⟩ := accepted
    have accepted' : (s.withPolicy policy).Accepted place g order := { accepted with }
    rw [accepted.reached, accepted'.reached]
    exact Course.traces_agree_upTo separate ⟨accepted.idle, h.size.ge, policy, rfl, agree⟩
  case neg =>
    have refused : ¬∃ g order, (s.withPolicy policy).Accepted place g order :=
      fun ⟨g, order, accepted'⟩ => accepted ⟨g, order, { accepted' with }⟩
    rw [(policy_of_not_accepted h.sound accepted).left,
      (policy_of_not_accepted (s := s.withPolicy policy) { h.sound with } refused).left]

-- So is what these learners are after it.
theorem Staffed.policies_agree (h : s.Staffed) {l : Nat} {policy : Perceptron Float32}
    (agree : s.policy.AgreeOn (· ≤ l) policy) :
    (s.after [place]).policy.AgreeOn (· ≤ l) ((s.withPolicy policy).after [place]).policy := by
  have staffed : (s.withPolicy policy).Staffed := ⟨{ h.sound with }, agree.size.trans h.size⟩
  have policy_after : ((s.withPolicy policy).after [place]).policy = policy.schooled
      (Decision.lessons s.scene.labeling.plan ((s.withPolicy policy).reached place)) :=
    Staffed.policy_runEpisode (s := s.withPolicy policy) separate staffed place
  rw [h.policy_runEpisode separate, policy_after]
  have traces : _ = ((s.reached place).filter (·.pass ≤ l)).map _ := h.traces_agree separate agree
  refine agree.schooled fun i hi => ?_
  have lessons := Decision.lessons_of_trace traces i
  rwa [Decision.lessons_filter hi, Decision.lessons_filter hi, eq_comm] at lessons

end Separate

-- Learners that are separate by pass, seen over one episode. Every decision is up to the learner of its
-- pass and changes no other one, so what the first passes decide and what their learners are in the end
-- is up to these learners alone, and each learner gets the lessons of its own pass in their order.
structure Isolated (s : Session Apprentice) (place : Option Nat) : Prop where
  known   : ∀ d ∈ s.reached place, ∀ id count,
    ¬d.Fails s.scene.labeling.labels s.scene.labeling.plan (.invalid (.learner id count))
  reads   : ∀ d ∈ s.reached place, ∀ policy, d.start.mind.policy.AgreeOn (· = d.pass) policy →
    (d.withPolicy policy).trace s.scene.labeling.plan = d.trace s.scene.labeling.plan ∧
    (d.after s.scene.labeling.labels s.scene.labeling.plan).policy.AgreeOn (· = d.pass)
      ((d.withPolicy policy).after s.scene.labeling.labels s.scene.labeling.plan).policy
  changes : ∀ d ∈ s.reached place, d.start.mind.policy.AgreeOn (· ≠ d.pass)
    (d.after s.scene.labeling.labels s.scene.labeling.plan).policy
  earlier : ∀ l policy, s.policy.AgreeOn (· ≤ l) policy →
    (((s.withPolicy policy).reached place).filter (·.pass ≤ l)).map
        (Decision.trace s.scene.labeling.plan) =
      ((s.reached place).filter (·.pass ≤ l)).map (Decision.trace s.scene.labeling.plan) ∧
    (s.after [place]).policy.AgreeOn (· ≤ l) ((s.withPolicy policy).after [place]).policy
  learned : (s.after [place]).policy =
    s.policy.schooled (Decision.lessons s.scene.labeling.plan (s.reached place))

theorem learners_isolated (opened : s₀.Opened) (undisturbed : s₀.Undisturbed s)
    (separate : s₀.scene.labeling.plan.separateLearners = true) (place : Option Nat) :
    s.Isolated place := by
  have ⟨staffed, plan⟩ := undisturbed.staffed (opened.staffed separate)
  have separate : s.scene.labeling.plan.separateLearners = true := plan ▸ separate
  exact {
    known   := fun d hd =>
      Course.not_fails_learner separate (staffed.known_of_reached hd).right
    reads   := fun d hd policy agree =>
      have ⟨idle, known⟩ := staffed.known_of_reached hd
      Course.agree_of_own separate known idle agree
    changes := fun d hd =>
      have ⟨idle, known⟩ := staffed.known_of_reached hd
      Course.agree_of_other separate known idle
    earlier := fun l policy agree =>
      ⟨staffed.traces_agree separate agree, staffed.policies_agree separate agree⟩
    learned := staffed.policy_runEpisode separate place }

-- The sample with two passes and a learner for each. It begins in training, with a policy of one learner.
def sampleSeparate : Session Apprentice :=
  let s := sample { mind := Decider.resize 2 { policy := {
    labels := 2, space := .standard, rate := 1.0, learners := #[.zero] } } }
  { s with scene.labeling.plan := {
    Plan.standard with separateLearners := true, two_le_of_separate := by decide } }

theorem opened_sampleSeparate : sampleSeparate.Opened where
  start   := ⟨2, some { passes := 2, useStructure := true, separateLearners := true }, "graph",
    { mind := { policy := { labels := 2, space := .standard, rate := 1.0, learners := #[.zero] } } }, rfl⟩
  current := rfl

-- It stays that way from one episode to the next.
theorem learners_isolated_sample :
    sampleSeparate.Isolated (some 0) ∧ (sampleSeparate.after [some 0]).Isolated (some 1) :=
  ⟨learners_isolated opened_sampleSeparate .refl rfl (some 0),
    learners_isolated opened_sampleSeparate (Undisturbed.refl.runEpisode (some 0)) rfl (some 1)⟩

end Session
end CollectiveLabeling
