import CollectiveLabeling.Proofs.Scene.Alike
import CollectiveLabeling.Proofs.Session.Intact

namespace CollectiveLabeling.Session

open Step

variable {s t : Session Apprentice} {place : Option Nat}

-- A session in which the apprentice has forgotten what it said.
def forgotten (s : Session Apprentice) : Session Apprentice :=
  (outcome forget s).2

def cleared {σ : Type} (s : Session σ) : Session σ :=
  (outcome takedown s).2

@[simp]
theorem forgotten_losses (s : Session Apprentice) :
    s.forgotten.scene.host.losses = s.scene.host.losses :=
  rfl

@[simp]
theorem cleared_host {σ : Type} (s : Session σ) : s.cleared.scene.host = s.scene.host :=
  rfl

theorem forget_apply (s : Session Apprentice) : forget s = .ok ⟨⟩ s.forgotten :=
  rfl

-- The labels that are given to the nodes of an episode.
def predictions (place : Option Nat) : Step (Session Apprentice) (Array Int) := do
  forget
  setup place
  run

theorem predictions_apply (place : Option Nat) (s : Session Apprentice) :
    predictions place s = match setup place s.forgotten with
      | .ok _ t => run t
      | .error e t => .error e t := by
  simp only [predictions, bind_apply, forget_apply]
  cases setup place s.forgotten <;> rfl

section RunEpisode

variable {e : Fault} {pred : Array Int} {u : Session Apprentice}

theorem runEpisode_refused (h : setup place s.forgotten = .error e t) :
    runEpisode place s = .error e t :=
  (bind_ok (forget_apply s)).trans <| (bind_ok rfl).trans <| bind_error h

variable (h : setup place s.forgotten = .ok ⟨⟩ t)
include h

theorem runEpisode_failed (hr : run t = .error e u) : runEpisode place s = .error e u.cleared := by
  have ha : Step.afterwards run (fun s => (takedown.outcome s).2) t = .error e u.cleared := by
    simp [afterwards, hr, cleared]
  exact (bind_ok (forget_apply s)).trans <| (bind_ok rfl).trans <| (bind_ok h).trans <| bind_error ha

theorem runEpisode_done (hr : run t = .ok pred u) : runEpisode place s =
    .ok (if s.scene.host.losses.size < u.scene.host.losses.size then u.scene.host.losses.back?
      else none) u.cleared := by
  have ha : Step.afterwards run (fun s => (takedown.outcome s).2) t = .ok pred u.cleared := by
    simp [afterwards, hr, cleared]
  exact (bind_ok (forget_apply s)).trans <| (bind_ok rfl).trans <| (bind_ok h).trans <|
    (bind_ok ha).trans rfl

end RunEpisode

-- An episode is taken down after its run, however that ends. One that is refused is not even set up.
theorem outcome_runEpisode (place : Option Nat) (s : Session Apprentice) :
    (outcome (runEpisode place) s).2 = match setup place s.forgotten with
      | .ok _ t => (outcome run t).2.cleared
      | .error _ t => t := by
  cases h : setup place s.forgotten
  case error => simp [outcome, runEpisode_refused h]
  case ok _ t =>
    cases hr : run t
    case error => simp [outcome, runEpisode_failed h hr, hr]
    case ok => simp [outcome, runEpisode_done h hr, hr]

-- A property of sessions that all parts of working through an episode keep.
theorem keeps_runEpisode {I : Session Apprentice → Prop} (hf : ∀ s, I s → I s.forgotten)
    (hs : Keeps I (setup place)) (hr : Keeps I run) (hc : ∀ s, I s → I s.cleared) :
    Keeps I (runEpisode place) := by
  intro s h
  rw [outcome_runEpisode]
  cases ht : setup place s.forgotten
  case error => exact hs.of_error (hf s h) ht
  case ok _ t => exact hc _ (hr _ (hs.of_ok (hf s h) ht))

-- What stays while an apprentice is being tested.
structure Testing (labels : Nat) (plan : Plan) (space : FeatureSpace) (a : Apprentice)
    (s : Session Apprentice) : Prop where
  sound  : s.scene.labeling.Sound
  labels : s.scene.labeling.labels = labels
  plan   : s.scene.labeling.plan = plan
  space  : s.scene.labeling.augmenter.space = space
  like   : a.Like s.scene.host.mind

section Testing

variable {labels : Nat} {plan : Plan} {space : FeatureSpace} {a : Apprentice}

theorem Testing.of_kept (h : s.Testing labels plan space a) (testing : a.training = false)
    (kept : s.scene.Kept t.scene) : t.Testing labels plan space a where
  sound  := kept.sound
  labels := kept.labels.trans h.labels
  plan   := kept.plan.trans h.plan
  space  := kept.space.trans h.space
  like   := kept.mind _ (Apprentice.keeps_like testing) h.like

theorem testing_runEpisode (testing : a.training = false) (place : Option Nat) :
    Keeps (Testing labels plan space a) (runEpisode place) := by
  refine keeps_runEpisode ?_ ?_ ?_ ?_
  case refine_1 => exact fun s h => ⟨h.sound, h.labels, h.plan, h.space, { h.like with }⟩
  case refine_2 => exact fun s h => h.of_kept testing <| outcome_setup_scene .. ▸ Scene.kept_setup h.sound _
  case refine_3 =>
    intro s h
    refine h.of_kept testing ?_
    rw [outcome_run, shelve_scene]
    exact Scene.kept_run h.sound
  case refine_4 => exact fun s h => h.of_kept testing (Scene.kept_takedown h.sound)

end Testing

-- Two apprentices that are alike set up episodes alike that only differ in their true labels.
theorem setup_alike {s' : Session Apprentice} {place' : Option Nat} {g g' : Hypergraph}
    (h : s.forgotten.scene.Alike s'.forgotten.scene)
    (hg : Episode.toGraph (some s.scene.labeling.labels) (s.episode place) = .ok g)
    (hg' : Episode.toGraph (some s.scene.labeling.labels) (s'.episode place') = .ok g')
    (hb : g'.bare = g.bare) :
    ∃ t t' f f', setup place s.forgotten = .ok ⟨⟩ t ∧ setup place' s'.forgotten = .ok ⟨⟩ t' ∧
      t.scene.Paired t'.scene f f' ∧ f.graph = g ∧ f'.graph = g' ∧
      t.scene.host = s.forgotten.scene.host ∧ t'.scene.host = s'.forgotten.scene.host := by
  have ⟨t, t', f, f', hs, hs', paired, graph, graph', host, host'⟩ := h.setup hg hg' hb
  exact ⟨_, _, f, f', setup_ok hs, setup_ok hs', paired, graph, graph', host, host'⟩

-- The sample with an apprentice that has learned nothing and is being tested.
def sampleTest : Session Apprentice :=
  sample { mind := {
    policy   := { labels := 2, space := .standard, rate := 1.0, learners := #[.zero] }
    training := false } }

theorem opened_sampleTest : sampleTest.Opened :=
  opened_sample _

theorem sound_sampleTest : sampleTest.scene.labeling.Sound :=
  have ⟨_, _, started⟩ := opened_sampleTest.started
  started.sound

end CollectiveLabeling.Session
