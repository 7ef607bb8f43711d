import CollectiveLabeling.Proofs.Scene.Kept
import CollectiveLabeling.Session

namespace CollectiveLabeling.Session

open Step

variable {σ : Type} {s t : Session σ}

section Apply

variable (place : Option Nat) (s : Session σ)

theorem setup_apply : setup place s = match Scene.setup (s.episode place) s.scene with
    | .ok _ scene => .ok ⟨⟩ { s with scene, current := place }
    | .error e scene => .error e { s with scene } := by
  cases h : Scene.setup (s.episode place) s.scene <;> simp [setup, onScene, within, h]

variable {place s} in
theorem setup_ok {t : Scene σ} (h : Scene.setup (s.episode place) s.scene = .ok ⟨⟩ t) :
    setup place s = .ok ⟨⟩ { s with scene := t, current := place } := by
  rw [setup_apply, h]

variable {place s} in
theorem setup_error {t : Scene σ} {e : Fault}
    (h : Scene.setup (s.episode place) s.scene = .error e t) :
    setup place s = .error e { s with scene := t } := by
  rw [setup_apply, h]

theorem outcome_setup_scene :
    (outcome (setup place) s).2.scene = (outcome (Scene.setup (s.episode place)) s.scene).2 := by
  simp only [outcome, setup_apply]
  cases Scene.setup (s.episode place) s.scene <;> rfl

@[simp]
theorem shelve_scene : s.shelve.scene = s.scene := by
  simp only [shelve]
  split <;> rfl

variable [Decider σ]

theorem run_apply : run s = match Scene.run s.scene with
    | .ok pred scene => .ok pred { s with scene }.shelve
    | .error e scene => .error e { s with scene }.shelve := by
  cases h : Scene.run s.scene <;> simp [run, afterwards, onScene, within, h]

section

variable {s : Session σ} {t : Scene σ}

theorem run_ok {pred : Array Int} (h : Scene.run s.scene = .ok pred t) :
    run s = .ok pred { s with scene := t }.shelve := by
  rw [run_apply, h]

theorem run_error {e : Fault} (h : Scene.run s.scene = .error e t) :
    run s = .error e { s with scene := t }.shelve := by
  rw [run_apply, h]

end

theorem outcome_run :
    (outcome run s).2 = { s with scene := (outcome Scene.run s.scene).2 }.shelve := by
  simp only [outcome, run_apply]
  cases Scene.run s.scene <;> rfl

variable {place s} in
theorem move_setup_ok {t : Session σ} (h : setup place s = .ok ⟨⟩ t) :
    move (.setup place) s = .ok none t := by
  simp [move, h]

variable {place s} in
theorem move_setup_error {t : Session σ} {e : Fault} (h : setup place s = .error e t) :
    move (.setup place) s = .error e t := by
  simp [move, h]

variable {s} in
theorem move_run_ok {t : Session σ} {pred : Array Int} (h : run s = .ok pred t) :
    move .run s = .ok (some pred) t := by
  simp [move, h]

variable {s} in
theorem move_run_error {t : Session σ} {e : Fault} (h : run s = .error e t) :
    move .run s = .error e t := by
  simp [move, h]

theorem outcome_move (m : Move) : (outcome (move m) s).2 = match m with
    | .setup place => (outcome (setup place) s).2
    | .run => (outcome run s).2
    | .takedown => (outcome takedown s).2
    | .finish => (outcome finish s).2 := by
  cases m
  case setup place => simp only [outcome, move, bind_apply]; cases setup place s <;> rfl
  case run => simp only [outcome, move, map_apply]; cases run s <;> rfl
  case takedown => rfl
  case finish => rfl

end Apply

variable [Decider σ]

-- A session in which nothing has been done yet.
structure Opened (s : Session σ) : Prop where
  start   : ∃ actions plan name host,
    Labeling.start actions plan name host = .ok s.scene.labeling s.scene.host
  current : s.current = none

-- The life of a session. Between two moves its surroundings may change, that is the host, the clock
-- and the entries of the log, but not the space of features that the host works in.
inductive Steps (s : Session σ) : Session σ → Prop
  | refl : Steps s s
  | move {t : Session σ} (m : Move) : Steps s t → Steps s ((Session.move m).outcome t).2
  | surroundings {t : Session σ} {host : Host σ} {clock : Clock} {entries : Array Entry} :
      Steps s t → Decider.space host.mind = Decider.space t.scene.host.mind →
      Steps s { t with scene := Scene.noted { t.scene with host } clock entries }

theorem Opened.started (h : s.Opened) : ∃ plan host,
    s.scene.labeling.Started plan host s.scene.host := by
  have ⟨_, _, _, _, hs⟩ := h.start
  exact ⟨_, _, Labeling.started_of_start hs⟩

theorem kept_move (h : s.scene.labeling.Sound) (m : Move) :
    s.scene.Kept (outcome (move m) s).2.scene := by
  rw [outcome_move]
  cases m
  case setup place => simpa only [outcome_setup_scene] using Scene.kept_setup h _
  case run => simpa only [outcome_run, shelve_scene] using Scene.kept_run h
  case takedown => exact Scene.kept_takedown h
  case finish => exact Scene.kept_finish h

theorem Steps.sound (h : s.Steps t) (hs : s.scene.labeling.Sound) : t.scene.labeling.Sound := by
  induction h
  case refl => exact hs
  case move m _ hi => exact (kept_move hi m).sound
  case surroundings hi => exact { hi with }

-- An episode with a graph is accepted.
theorem setup_of_toGraph (sound : s.scene.labeling.Sound) (place : Option Nat) {g : Hypergraph}
    (hg : Episode.toGraph (some s.scene.labeling.labels) (s.episode place) = .ok g) :
    ∃ t f, setup place s = .ok ⟨⟩ t ∧ t.scene.labeling.frame = some f ∧ f.graph = g ∧
      t.scene.labeling.confusion = s.scene.labeling.confusion := by
  cases Scene.setUp sound (s.episode place)
  case refused hd _ => cases hg.symm.trans hd
  case accepted hg' _ _ hs =>
    cases hg.symm.trans hg'
    exact ⟨_, _, setup_ok hs, rfl, rfl, rfl⟩

theorem toGraph_of_setup (sound : s.scene.labeling.Sound) {place : Option Nat}
    (h : setup place s = .ok ⟨⟩ t) :
    ∃ g, Episode.toGraph (some s.scene.labeling.labels) (s.episode place) = .ok g := by
  cases Scene.setUp sound (s.episode place)
  case accepted hg _ _ _ => exact ⟨_, hg⟩
  case refused hs =>
    rw [setup_apply, hs] at h
    cases h

-- An episode without nodes has nothing to decide.
theorem run_of_empty (sound : s.scene.labeling.Sound) {f : Frame} {k : Confusion}
    (hf : s.scene.labeling.frame = some f) (hk : s.scene.labeling.confusion = some k)
    (empty : f.graph.nodes.size = 0) : ∃ pred t, run s = .ok pred t := by
  have visit : f.order = [] := by
    have perm := (sound.frame f hf).order_perm
    rw [empty] at perm
    exact perm.eq_nil
  have nothing : s.scene.labeling.plan.schedule f.order = [] := by
    simp [Plan.schedule, visit]
  cases Scene.ran sound hf hk
  case failed hw _ _ =>
    rw [nothing] at hw
    cases hw
  case done hr => exact ⟨_, _, run_ok hr⟩

end CollectiveLabeling.Session
