import CollectiveLabeling.Proofs.Session.Episode

namespace CollectiveLabeling.Session

open Step

variable {s₀ s s' : Session Apprentice} {place : Option Nat}

-- What comes of an episode: its loss, the labels of its nodes and how they are scored.
structure Verdict where
  loss      : Except Fault (Option Float)
  labels    : Except Fault (Array Int)
  confusion : Option Confusion

def verdict (place : Option Nat) (s : Session Apprentice) : Verdict where
  loss      := (outcome (runEpisode place) s).1
  labels    := (outcome (predictions place) s).1
  confusion := match runEpisode place s with
    | .ok _ t => t.scene.labeling.confusion
    | .error _ _ => none

section Verdict

variable {t u : Session Apprentice} {e : Fault}

theorem verdict_refused (h : setup place s.forgotten = .error e t) :
    s.verdict place = ⟨.error e, .error e, none⟩ := by
  simp [verdict, outcome, runEpisode_refused h, predictions_apply, h]

theorem verdict_failed (h : setup place s.forgotten = .ok ⟨⟩ t) (hr : run t = .error e u) :
    s.verdict place = ⟨.error e, .error e, none⟩ := by
  simp [verdict, outcome, runEpisode_failed h hr, predictions_apply, h, hr]

-- A run that is scored reports one more loss, and that is the loss of the episode.
theorem verdict_done {pred : Array Int} {k : Confusion} (h : setup place s.forgotten = .ok ⟨⟩ t)
    (hr : run t = .ok pred u) (hk : u.scene.labeling.confusion = some k)
    (hl : u.scene.host.losses = s.scene.host.losses.push k.loss) :
    s.verdict place = ⟨.ok (some k.loss), .ok pred, some k⟩ := by
  have confusion : u.cleared.scene.labeling.confusion = some k := hk
  simp [verdict, outcome, runEpisode_done h hr, predictions_apply, h, hr, confusion, hl]

end Verdict

-- The session after working through some episodes, however they end.
def after (history : List (Option Nat)) (s : Session Apprentice) : Session Apprentice :=
  history.foldl (fun s place => (outcome (runEpisode place) s).2) s

-- An augmenter works in the space of features of its apprentice.
def Attuned (s : Session Apprentice) : Prop :=
  s.scene.host.mind.In s.scene.labeling.augmenter.space

theorem Opened.attuned (h : s.Opened) : s.Attuned := by
  have ⟨_, host, started⟩ := h.started
  have space : s.scene.labeling.augmenter.space = host.mind.policy.space := started.space
  simp only [Attuned, Apprentice.In, Perceptron.In]
  rw [space, started.host]
  split
  case isTrue => exact Perceptron.resize_space ..
  case isFalse => rfl

theorem Steps.attuned (h : s₀.Steps s) (opened : s₀.Opened) : s.Attuned := by
  have ⟨_, _, started⟩ := opened.started
  induction h
  case refl => exact opened.attuned
  case move m h hi =>
    have kept := kept_move (h.sound started.sound) m
    simp only [Attuned]
    rw [kept.space]
    exact kept.mind _ (fun q => Apprentice.keeps_decide q) hi
  case surroundings hs hi => exact (Option.some.inj hs).trans hi

-- An apprentice that is being tested, between two episodes.
structure Tester (shelf : Array (List Record)) (labels : Nat) (plan : Plan) (space : FeatureSpace)
    (a : Apprentice) (s : Session Apprentice) : Prop where
  testing    : s.Testing labels plan space a
  intact     : s.Intact shelf
  unfinished : s.scene.labeling.confusion.isSome
  unset      : s.scene.labeling.frame = none

section Tester

variable {shelf : Array (List Record)} {labels : Nat} {plan : Plan} {space : FeatureSpace}
  {a : Apprentice}

-- An episode that is refused is not set up, and any other one is taken down again.
theorem unset_runEpisode (sound : s.scene.labeling.Sound) (h : s.scene.labeling.frame = none)
    (place : Option Nat) : (outcome (runEpisode place) s).2.scene.labeling.frame = none := by
  rw [outcome_runEpisode, setup_apply]
  cases Scene.setUp (s := s.forgotten.scene) sound (s.forgotten.episode place)
  case refused hs => simp only [hs]; exact h
  case accepted hs => simp only [hs]; rfl

theorem tester_runEpisode (testing : a.training = false) (sourced : Sourced shelf)
    (place : Option Nat) : Keeps (Tester shelf labels plan space a) (runEpisode place) := by
  intro s h
  have unfinished : Keeps (fun s : Session Apprentice => s.scene.labeling.Sound ∧ s.Intact shelf ∧
      s.scene.labeling.confusion.isSome) (runEpisode place) := by
    refine keeps_runEpisode ?_ ?_ ?_ ?_
    case refine_1 => exact fun s ⟨sound, intact, hk⟩ => ⟨sound, ⟨intact.shelf, intact.records⟩, hk⟩
    case refine_2 =>
      intro s ⟨sound, intact, hk⟩
      refine ⟨?sound, intact.setup sound place, ?unfinished⟩
      case sound => exact outcome_setup_scene .. ▸ (Scene.kept_setup sound _).sound
      case unfinished =>
        rw [outcome_setup_scene, Scene.confusion_setup sound]
        exact hk
    case refine_3 =>
      intro s ⟨sound, intact, hk⟩
      refine ⟨?sound, intact.run sound sourced, ?unfinished⟩
      case sound =>
        rw [outcome_run, shelve_scene]
        exact (Scene.kept_run sound).sound
      case unfinished =>
        rw [outcome_run, shelve_scene]
        exact Scene.unfinished_run sound hk
    case refine_4 =>
      intro s ⟨sound, intact, hk⟩
      exact ⟨(Scene.kept_takedown sound).sound, ⟨intact.shelf, fun _ he => nomatch he⟩, hk⟩
  have ⟨_, intact, hk⟩ := unfinished s ⟨h.testing.sound, h.intact, h.unfinished⟩
  exact {
    testing    := testing_runEpisode testing place s h.testing
    intact     := intact
    unfinished := hk
    unset      := unset_runEpisode h.testing.sound h.unset place }

theorem Tester.after (h : s.Tester shelf labels plan space a) (testing : a.training = false)
    (sourced : Sourced shelf) (history : List (Option Nat)) :
    (s.after history).Tester shelf labels plan space a := by
  induction history generalizing s
  case nil => exact h
  case cons place history hi => exact hi (tester_runEpisode testing sourced place s h)

theorem forgotten_mind (h : a.Like s.scene.host.mind) :
    s.forgotten.scene.host.mind = { a with memory := ∅ } := by
  simp [forgotten, outcome, forget, h.policy, h.training, h.wantsInput]

section Verdict

variable (h : s.Tester shelf labels plan space a) (h' : s'.Tester shelf labels plan space a)
  (testing : a.training = false)
include h h' testing

theorem Tester.alike : s.forgotten.scene.Alike s'.forgotten.scene where
  labels     := h'.testing.labels.trans h.testing.labels.symm
  plan       := h'.testing.plan.trans h.testing.plan.symm
  space      := h'.testing.space.trans h.testing.space.symm
  scratch    := by
    have size := h.testing.sound.scratch h.unfinished
    have size' := h'.testing.sound.scratch h'.unfinished
    rw [h.testing.labels] at size
    rw [h'.testing.labels] at size'
    exact size'.trans size.symm
  unfinished := h'.unfinished.trans h.unfinished.symm
  sound      := { h.testing.sound with }
  sound'     := { h'.testing.sound with }
  mind       := (forgotten_mind h'.testing.like).trans (forgotten_mind h.testing.like).symm
  testing    := h.testing.like.training.trans testing

theorem Tester.verdict_eq (place : Option Nat) : s'.verdict place = s.verdict place := by
  have alike := h.alike h' testing
  have episode : s'.episode place = s.episode place := by
    rw [Session.episode, Session.episode, h.intact.shelf, h'.intact.shelf]
  cases hg : Episode.toGraph (some s.scene.labeling.labels) (s.episode place)
  case error d =>
    obtain ⟨_, _, hs⟩ := Scene.setup_error (s := s.forgotten.scene) hg
    obtain ⟨_, _, hs'⟩ := Scene.setup_error (s := s'.forgotten.scene) (alike.labels ▸ episode ▸ hg)
    rw [verdict_refused (setup_error hs), verdict_refused (setup_error hs')]
  case ok g =>
    obtain ⟨t, t', f, f', hs, hs', paired, graph, graph', host, host'⟩ :=
      setup_alike alike hg (episode ▸ hg) rfl
    cases paired.run
    case failed hr hr' _ _ =>
      rw [verdict_failed hs (run_error hr), verdict_failed hs' (run_error hr')]
    case done k _ _ _ hr hr' _ _ hk hl hk' hl' same =>
      have labels : f'.graph.trueLabels = f.graph.trueLabels := by rw [graph, graph']
      cases same labels
      rw [host] at hl
      rw [host'] at hl'
      rw [verdict_done hs (run_ok hr) (by simpa using hk) (by simpa using hl),
        verdict_done hs' (run_ok hr') (by simpa using hk') (by simpa using hl')]

end Verdict
end Tester

-- A session that is newly opened for the same apprentice, plan and episodes.
structure Renews (f s : Session Apprentice) : Prop where
  opened : f.Opened
  labels : f.scene.labeling.labels = s.scene.labeling.labels
  plan   : f.scene.labeling.plan = s.scene.labeling.plan
  like   : s.scene.host.mind.Like f.scene.host.mind
  shelf  : f.shelf = s.shelf

theorem Steps.tester (h : s₀.Steps s) (opened : s₀.Opened) (sourced : Sourced s₀.shelf)
    (unset : s.scene.labeling.frame = none) (unfinished : s.scene.labeling.confusion.isSome) :
    s.Tester s.shelf s.scene.labeling.labels s.scene.labeling.plan s.scene.labeling.augmenter.space
      s.scene.host.mind := by
  have ⟨_, _, started⟩ := opened.started
  have intact := h.intact opened sourced
  exact {
    testing    := ⟨h.sound started.sound, rfl, rfl, rfl, .refl _⟩
    intact     := intact.shelf ▸ intact
    unfinished := unfinished
    unset      := unset }

theorem Renews.tester {f : Session Apprentice} (h : f.Renews s) (attuned : s.Attuned) :
    f.Tester s.shelf s.scene.labeling.labels s.scene.labeling.plan s.scene.labeling.augmenter.space
      s.scene.host.mind := by
  have ⟨_, _, started⟩ := h.opened.started
  have space : f.scene.host.mind.policy.space = s.scene.host.mind.policy.space :=
    congrArg Perceptron.space h.like.policy
  exact {
    testing    := {
      sound  := started.sound
      labels := h.labels
      plan   := h.plan
      space  := h.opened.attuned.symm.trans (space.trans attuned)
      like   := h.like }
    intact     := h.shelf ▸ h.opened.intact
    unfinished := started.unfinished
    unset      := started.unset }

-- What comes of an episode does not depend on those before it, and testing leaves the policy alone.
theorem verdict_independent {f : Session Apprentice} (opened : s₀.Opened) (sourced : Sourced s₀.shelf)
    (steps : s₀.Steps s) (unset : s.scene.labeling.frame = none)
    (unfinished : s.scene.labeling.confusion.isSome) (testing : s.scene.host.mind.training = false)
    (fresh : f.Renews s) (history : List (Option Nat)) :
    (∀ place, (s.after history).verdict place = f.verdict place) ∧
    (s.after history).scene.host.mind.policy = s.scene.host.mind.policy ∧
    (s.after history).scene.labeling.frame = none := by
  have tester := steps.tester opened sourced unset unfinished
  have later := tester.after testing ((steps.intact opened sourced).shelf ▸ sourced) history
  have renewed := fresh.tester (steps.attuned opened)
  exact ⟨fun place => renewed.verdict_eq later testing place, later.testing.like.policy, later.unset⟩

theorem renews_self (opened : s.Opened) : s.Renews s :=
  ⟨opened, rfl, rfl, .refl _, rfl⟩

-- Here an episode that is not on the shelf is worked through between two that are.
theorem verdict_independent_sample :
    let t := sampleTest.after [some 1, none, some 0]
    (∀ place, t.verdict place = sampleTest.verdict place) ∧
    t.scene.host.mind.policy = sampleTest.scene.host.mind.policy ∧
    t.scene.labeling.frame = none :=
  verdict_independent opened_sampleTest sourced_sample .refl rfl rfl rfl
    (renews_self opened_sampleTest) [some 1, none, some 0]

section Finished

variable (sound : s.scene.labeling.Sound)
include sound

-- A labeling that is finished fails at every episode that is accepted.
theorem verdict_finished (finished : s.scene.labeling.confusion = none) {g : Hypergraph}
    (hg : Episode.toGraph (some s.scene.labeling.labels) (s.episode place) = .ok g) :
    s.verdict place = ⟨.error .finished, .error .finished, none⟩ := by
  have ⟨_, _, hs, hf, _, hk⟩ := setup_of_toGraph (s := s.forgotten) { sound with } place hg
  exact verdict_failed hs <| run_error <| Scene.run_finished hf (hk.trans finished)

-- One that is not finished gets through the empty episode, which has nothing to decide.
theorem loss_of_empty {k : Confusion} (unfinished : s.scene.labeling.confusion = some k) :
    ∃ loss, (s.verdict none).loss = .ok loss := by
  have ⟨t, f, hs, hf, hg, hk⟩ := setup_of_toGraph (s := s.forgotten) { sound with } none rfl
  have kept := Scene.kept_setup (s := s.forgotten.scene) { sound with } (s.forgotten.episode none)
  rw [← outcome_setup_scene, outcome_ok.mpr hs] at kept
  have ⟨_, _, hr⟩ := run_of_empty kept.sound hf (hk.trans unfinished) (by rw [hg]; rfl)
  simp only [verdict, outcome, runEpisode_done hs hr]
  exact ⟨_, rfl⟩

end Finished

-- A labeling that is finished is of no more use: even the empty episode, which any other labeling gets
-- through, fails.
theorem finished_verdict_differs :
    let s := (outcome (move .finish) sampleTest).2
    sampleTest.Steps s ∧ s.scene.labeling.frame = none ∧ s.scene.host.mind.training = false ∧
    sampleTest.Renews s ∧ s.verdict none ≠ sampleTest.verdict none := by
  intro s
  have steps : sampleTest.Steps s := .move .finish .refl
  have renews : sampleTest.Renews s := ⟨opened_sampleTest, rfl, rfl, .refl _, rfl⟩
  refine ⟨steps, rfl, rfl, renews, fun h => ?_⟩
  have ⟨_, hl⟩ := loss_of_empty sound_sampleTest rfl
  rw [← h, verdict_finished (steps.sound sound_sampleTest) rfl rfl] at hl
  cases hl

end CollectiveLabeling.Session
