import CollectiveLabeling.Proofs.Session

namespace CollectiveLabeling.Session

open Step

-- A move and the session in which it is made.
structure Event (σ : Type) where
  move   : Move
  before : Session σ

variable {σ : Type} [Decider σ]

namespace Event

def after (e : Event σ) : Session σ :=
  (outcome (Session.move e.move) e.before).2

def answer (e : Event σ) : Except Fault (Option (Array Int)) :=
  (outcome (Session.move e.move) e.before).1

-- The records of the episode that a move sets up, none if it does not or is refused.
def accepted (e : Event σ) : List Record :=
  match e.move, e.answer with
  | .setup place, .ok _ => e.before.episode place
  | _, _ => []

-- A move that sets up nothing: it does something else, or it is refused.
def Idle (e : Event σ) : Prop :=
  ∀ place, e.move = .setup place → ∃ f, e.answer = .error f

theorem accepted_of_idle {e : Event σ} (h : e.Idle) : e.accepted = [] := by
  simp only [accepted]
  split
  case h_1 place _ hm ha =>
    have ⟨_, failed⟩ := h place hm
    cases ha.symm.trans failed
  case h_2 => rfl

theorem accepted_setup {s t : Session σ} {place : Option Nat} (h : setup place s = .ok ⟨⟩ t) :
    accepted ⟨.setup place, s⟩ = s.episode place := by
  simp [accepted, answer, outcome_ok.mpr (move_setup_ok h)]

-- The labels that a move answers with. Only a run does.
def labels? (e : Event σ) : Option (Array Int) :=
  e.answer.toOption.join

theorem labels?_failed {m : Move} {s t : Session σ} {f : Fault} (h : Session.move m s = .error f t) :
    labels? ⟨m, s⟩ = none := by
  simp [labels?, answer, outcome_error.mpr h, Except.toOption]

theorem labels?_setup (place : Option Nat) (s : Session σ) : labels? ⟨.setup place, s⟩ = none := by
  cases h : setup place s
  case error => exact labels?_failed (move_setup_error h)
  case ok => simp [labels?, answer, outcome_ok.mpr (move_setup_ok h), Except.toOption]

theorem labels?_run {s t : Session σ} {pred : Array Int} (h : run s = .ok pred t) :
    labels? ⟨.run, s⟩ = some pred := by
  simp [labels?, answer, outcome_ok.mpr (move_run_ok h), Except.toOption]

end Event

-- The life of a session with all its moves, those that fail too. In between the host's mind, the clock
-- and the entries of the log may change in any way.
inductive Life (s : Session σ) : List (Event σ) → Session σ → Prop
  | refl : Life s [] s
  | move {es : List (Event σ)} {t : Session σ} (m : Move) : Life s es t →
      Life s (es ++ [⟨m, t⟩]) (Event.after ⟨m, t⟩)
  | surroundings {es : List (Event σ)} {t : Session σ} {mind : σ} {clock : Clock}
      {entries : Array Entry} : Life s es t →
      Life s es { t with
        scene := Scene.noted { t.scene with host := { t.scene.host with mind } } clock entries }

theorem Life.sound {s t : Session σ} {es : List (Event σ)} (h : s.Life es t)
    (sound : s.scene.labeling.Sound) : t.scene.labeling.Sound := by
  induction h
  case refl => exact sound
  case move m _ hi => exact (kept_move hi m).sound
  case surroundings hi => exact { hi with }

theorem Life.labels {s t : Session σ} {es : List (Event σ)} (h : s.Life es t)
    (sound : s.scene.labeling.Sound) : t.scene.labeling.labels = s.scene.labeling.labels := by
  induction h
  case refl => rfl
  case move m h hi => exact (kept_move (h.sound sound) m).labels.trans hi
  case surroundings hi => exact hi

end CollectiveLabeling.Session
