import CollectiveLabeling.Experiment
import CollectiveLabeling.Proofs.Files
import CollectiveLabeling.Proofs.Session.Episode
import CollectiveLabeling.Proofs.Session.Report

namespace CollectiveLabeling

open Step

namespace Session

variable {s : Session Apprentice} {place : Option Nat}

-- An episode is accounted for in full, with the labels of its run, or not at all.
inductive Played (place : Option Nat) (s : Session Apprentice) : Prop
  | done {pred : Array Int} {loss : Float} {given : Option Float} {t : Session Apprentice} :
      (outcome (predictions place) s).1 = .ok pred → runEpisode place s = .ok given t →
      t.standing = s.standing.enter (pred, loss) → Played place s
  | failed {e : Fault} {t : Session Apprentice} : (outcome (predictions place) s).1 = .error e →
      runEpisode place s = .error e t → t.standing = s.standing → Played place s

theorem played (sound : s.scene.labeling.Sound) (place : Option Nat) : s.Played place := by
  have kept := standing_setup (s := s.forgotten) sound place
  have sound' : (outcome (setup place) s.forgotten).2.scene.labeling.Sound :=
    outcome_setup_scene .. ▸ (Scene.kept_setup (s := s.forgotten.scene) sound _).sound
  cases hs : setup place s.forgotten
  case error e t =>
    rw [outcome_error.mpr hs] at kept
    refine .failed ?_ (runEpisode_refused hs) kept
    rw [outcome, predictions_apply, hs]
  case ok u t =>
    rw [outcome_ok.mpr hs] at kept sound'
    cases accounted sound'
    case failed hr same =>
      refine .failed ?_ (runEpisode_failed hs hr) (same.trans kept)
      rw [outcome, predictions_apply, hs]
      simp only [hr]
    case done pred k u hr _ _ _ entered =>
      have standing : u.cleared.standing = s.standing.enter (pred, k.loss) :=
        entered.trans (congrArg (·.enter (pred, k.loss)) kept)
      refine .done ?_ (runEpisode_done hs hr) standing
      rw [outcome, predictions_apply, hs]
      simp only [hr]

theorem sound_runEpisode (place : Option Nat) :
    Keeps (fun s : Session Apprentice => s.scene.labeling.Sound) (runEpisode place) := by
  refine keeps_runEpisode (fun s h => h) ?_ ?_ fun s h => (Scene.kept_takedown h).sound
  case refine_1 => exact fun s h => outcome_setup_scene .. ▸ (Scene.kept_setup h _).sound
  case refine_2 =>
    intro s h
    rw [outcome_run, shelve_scene]
    exact (Scene.kept_run h).sound

end Session

theorem Station.filed_record {f₀ : Files} (file : String) (e : Entry) (shown : Bool) :
    Keeps (fun st : Station => f₀.Filed (Files.place file) st.files)
      (Station.record (some file) e shown) := by
  have files {α : Type} {x : Step Files α} (hx : Keeps (f₀.Filed (Files.place file)) x) :
      Keeps (fun st : Station => f₀.Filed (Files.place file) st.files) (Station.within x) :=
    Keeps.within (fun _ _ => rfl) hx
  have append : Keeps (fun st : Station => f₀.Filed (Files.place file) st.files) (do
      let text := e.written (← get).clock.date
      Station.within (Files.append file text)
      if shown then print text) := by
    refine Keeps.bind (fun _ h => h) fun st => ?_
    refine (files (Files.filed_append file _)).bind fun _ => ?_
    split
    case isTrue => exact Keeps.modify fun _ h => h
    case isFalse => exact Keeps.pure _
  simp only [Station.record]
  split
  case isTrue => exact (files (Files.filed_makeDirectory _)).bind fun _ => append
  case isFalse => exact append

-- Drawing a plot does not touch this file, whatever picture it is.
def Painter.Spares (paint : Painter) (plot : Option String) (q : Path) : Prop :=
  ∀ path ∈ plot, ∀ picture : Picture, picture.path = path →
    ∀ f : Files, (outcome (paint picture) f).2.text? q = f.text? q

-- Pictures that are put down as texts spare every other file.
theorem Painter.spares_ofText {plot : Option String} {q : Path} (elsewhere : ∀ path ∈ plot, Files.place path ≠ q)
    (text : Picture → String) : (Painter.ofText text).Spares plot q := by
  intro path hp picture he f
  subst he
  have ne := elsewhere _ hp
  exact ((Files.keeps_truncate ne).bind fun _ => Files.keeps_overwrite ne (text picture)) f rfl

namespace Experiment

variable {f₀ : Files} {q : Path} {file : String} {paint : Painter} {t : Trial}

-- The files of a trial after filing at one place.
def FiledIn (f₀ : Files) (q : Path) (t : Trial) : Prop :=
  f₀.Filed q t.desk.station.files

theorem filed_onStation {α : Type} {x : Step Station α} (hx : Keeps (fun st => f₀.Filed q st.files) x) :
    Keeps (FiledIn f₀ q) (onDesk (onStation x)) :=
  Keeps.within (J := fun d : Desk => f₀.Filed q d.station.files) (fun _ _ => rfl) <|
    Keeps.within (fun _ _ => rfl) hx

theorem filed_onSession {α : Type} (x : Step (Session Apprentice) α) :
    Keeps (FiledIn f₀ q) (onSession x) :=
  Keeps.within_other fun _ _ h => h

theorem filed_fileEntries : Keeps (FiledIn f₀ (Files.place file)) (fileEntries file) := by
  refine Keeps.bind (fun _ h => h) fun t => Keeps.bind (Keeps.modify ?_) fun _ => Keeps.forM fun e _ => ?_
  case refine_1 => exact fun _ h => h
  case refine_2 => exact filed_onStation (Station.filed_record file e false)

theorem filed_play (places : List Nat) : Keeps (FiledIn f₀ (Files.place file)) (play file places) := by
  refine Keeps.bind (Keeps.mapM fun place _ => ?_) fun _ => Keeps.pure _
  exact (filed_onSession _).ensuring filed_fileEntries

theorem keeps_put {I : Files → Prop} {picture : Picture} (painted : Keeps I (paint picture)) :
    Keeps (fun d : Desk => I d.station.files) (put paint picture) := by
  refine Keeps.bind (Keeps.modify ?_) fun _ => ?_
  case refine_1 => exact fun _ h => h
  case refine_2 =>
    refine Keeps.within (J := fun s : Station => I s.files) (fun _ _ => rfl) ?_
    exact Keeps.within (fun _ _ => rfl) painted

-- Drawing does nothing to the files but what the painter does to them.
theorem keeps_draw {I : Files → Prop} {plot : Option String}
    (spared : ∀ path ∈ plot, ∀ picture : Picture, picture.path = path → Keeps I (paint picture))
    (losses : List Float) : Keeps (fun t => I t.desk.station.files) (draw paint plot losses) := by
  refine Keeps.bind (fun _ h => h) fun t => ?_
  split
  case h_1 path _ _ _ _ =>
    exact Keeps.within (J := fun d : Desk => I d.station.files) (fun _ _ => rfl)
      (keeps_put (spared path rfl _ rfl))
  case h_2 => exact Keeps.pure _

-- What is filed once the tests are over.
def sumUp (plan : Plan) (file : String) (losses : List Float) : Step Trial Unit := do
  onDesk (onStation (Station.record (some file) { tag := some "SUMMARY", text := summary plan losses } true))
  onSession Session.finish
  fileEntries file

theorem filed_sumUp (plan : Plan) (losses : List Float) :
    Keeps (FiledIn f₀ (Files.place file)) (sumUp plan file losses) := by
  refine (filed_onStation (Station.filed_record file _ true)).bind fun _ => ?_
  exact (filed_onSession _).bind fun _ => filed_fileEntries

-- The tests begin with an empty file of predictions.
def openPredictions (path : String) : Step Trial Unit := do
  onHost fun h => { h with mind := { h.mind with training := false } }
  onDesk (onStation (Station.within (Files.truncate path)))
  onHost fun h => { h with output := some "" }

theorem test_eq (file path : String) (places : List Nat) : test file (some path) places = (do
    openPredictions path
    Step.ensuring (play file places) (closePredictions path)) := by
  simp only [test, openPredictions, bind_assoc]

theorem conduct_eq {a : Arguments} {path : String} (asked : Arguments.path? a.predictions = some path)
    (plan : Plan) (file : String) (training testing : Nat) : conduct paint a plan file training testing = (do
      train file (List.range training) a.epochs
      openPredictions path
      let losses ← Step.ensuring (play file ((List.range testing).map (training + ·))) (closePredictions path)
      draw paint (Arguments.path? a.plot) losses
      sumUp plan file losses) := by
  simp only [conduct, asked, test_eq, sumUp, bind_assoc]

-- A trial in which this much has been written for the host so far.
structure Telling (text : String) (t : Trial) : Prop where
  sound  : t.session.scene.labeling.Sound
  output : t.session.scene.host.output = some text

def playEpisode (file : String) (place : Nat) : Step Trial (Option Float) :=
  Step.ensuring (onSession (Session.runEpisode (some place))) (fileEntries file)

-- Filing the entries does nothing else to a session.
theorem keeps_fileEntries {I : Trial → Prop} (desk : ∀ d t, I t → I { t with desk := d })
    (entries : ∀ entries t, I t → I { t with session.scene.labeling.entries := entries }) (file : String) :
    Keeps I (fileEntries file) := by
  refine Keeps.bind (fun _ h => h) fun t => Keeps.bind (Keeps.modify ?_) fun _ => Keeps.forM fun e _ => ?_
  case refine_1 => exact entries #[]
  case refine_2 => exact Keeps.within_other desk

theorem telling_fileEntries (file text : String) : Keeps (Telling text) (fileEntries file) :=
  keeps_fileEntries (fun _ _ h => ⟨h.sound, h.output⟩) (fun _ _ h => ⟨{ h.sound with }, h.output⟩) file

-- An episode adds the line of its labels, or it fails and adds nothing.
inductive Told (file text : String) (place : Nat) (t : Trial) : Prop
  | done {pred : Array Int} :
      (outcome (Session.predictions (some place)) t.session).1 = .ok pred →
      Telling (text ++ (labelLine pred.toList ++ "\n")) (outcome (playEpisode file place) t).2 →
      Told file text place t
  | failed {e e' : Fault} {u : Trial} :
      (outcome (Session.predictions (some place)) t.session).1 = .error e →
      playEpisode file place t = .error e' u → Telling text u → Told file text place t

theorem told {text : String} (h : Telling text t) (file : String) (place : Nat) :
    Told file text place t := by
  have sound : (outcome (Session.runEpisode (some place)) t.session).2.scene.labeling.Sound :=
    Session.sound_runEpisode (some place) _ h.sound
  cases Session.played h.sound (some place)
  case done pred loss given s hp hr standing =>
    have output : s.scene.host.output = some (text ++ (labelLine pred.toList ++ "\n")) := by
      have := congrArg Standing.output standing
      simpa [Session.standing, Standing.enter, h.output] using this
    rw [outcome_ok.mpr hr] at sound
    have session : onSession (Session.runEpisode (some place)) t = .ok given { t with session := s } :=
      within_ok hr
    refine .done hp ?_
    rw [playEpisode, outcome_ensuring, outcome_ok.mpr session]
    exact telling_fileEntries file _ _ ⟨sound, output⟩
  case failed e s hp hr standing =>
    have output : s.scene.host.output = some text :=
      (congrArg Standing.output standing).trans h.output
    rw [outcome_error.mpr hr] at sound
    have session : onSession (Session.runEpisode (some place)) t = .error e { t with session := s } :=
      within_error hr
    obtain ⟨e', u, hu⟩ := ensuring_error session (fileEntries file)
    have after : u = (outcome (fileEntries file) { t with session := s }).2 := by
      have := outcome_ensuring (onSession (Session.runEpisode (some place))) (fileEntries file) t
      rwa [outcome_error.mpr session, outcome_error.mpr hu] at this
    refine .failed hp hu ?_
    rw [after]
    exact telling_fileEntries file text _ ⟨sound, output⟩

-- The labels of the episodes that are completed, up to the first that is not.
def completed (file : String) : List Nat → Trial → List (List Int)
  | [], _ => []
  | place :: places, t =>
    match (outcome (Session.predictions (some place)) t.session).1 with
    | .error _ => []
    | .ok pred => pred.toList :: match playEpisode file place t with
      | .ok _ u => completed file places u
      | .error _ _ => []

theorem telling_mapM {text : String} (h : Telling text t) (file : String) (places : List Nat) :
    Telling (text ++ report (completed file places t)) (outcome (places.mapM (playEpisode file)) t).2 ∧
    ∀ given u, places.mapM (playEpisode file) t = .ok given u →
      (completed file places t).length = places.length := by
  induction places generalizing text t
  case nil => exact ⟨by simpa [completed, report, outcome] using h, fun _ _ _ => rfl⟩
  case cons place places hi =>
    rw [List.mapM_cons]
    cases told h file place
    case failed hp hu telling =>
      have none : completed file (place :: places) t = [] := by rw [completed, hp]
      rw [none, outcome_error.mpr (bind_error hu)]
      exact ⟨by simpa [report] using telling, fun _ _ h => by cases (bind_error hu).symm.trans h⟩
    case done pred hp telling =>
      cases hu : playEpisode file place t
      case error e u =>
        have one : completed file (place :: places) t = [pred.toList] := by rw [completed, hp, hu]
        rw [outcome_error.mpr hu] at telling
        rw [one, outcome_error.mpr (bind_error hu)]
        exact ⟨by simpa [report] using telling, fun _ _ h => by cases (bind_error hu).symm.trans h⟩
      case ok given u =>
        have more : completed file (place :: places) t = pred.toList :: completed file places u := by
          rw [completed, hp, hu]
        rw [outcome_ok.mpr hu] at telling
        obtain ⟨telling', all⟩ := hi telling
        rw [more, outcome, bind_ok hu]
        cases hm : places.mapM (playEpisode file) u
        case error e v =>
          rw [outcome_error.mpr hm] at telling'
          rw [bind_error hm]
          exact ⟨by simpa [report, String.append_assoc] using telling', fun _ _ h => by cases h⟩
        case ok rest v =>
          rw [outcome_ok.mpr hm] at telling'
          rw [bind_ok hm]
          refine ⟨by simpa [report, String.append_assoc] using telling', fun _ _ _ => ?_⟩
          rw [List.length_cons, List.length_cons, all rest v hm]

theorem telling_play {text : String} (h : Telling text t) (file : String) (places : List Nat) :
    Telling (text ++ report (completed file places t)) (outcome (play file places) t).2 ∧
    ∀ losses u, play file places t = .ok losses u → (completed file places t).length = places.length := by
  have ⟨telling, all⟩ := telling_mapM h file places
  have steps : play file places =
      (places.mapM (playEpisode file) >>= fun losses => pure (losses.filterMap id)) := rfl
  rw [steps]
  cases hm : places.mapM (playEpisode file) t
  case error => simpa [outcome, hm] using telling
  case ok given u =>
    rw [outcome_ok.mpr hm] at telling
    exact ⟨by simpa [outcome, hm] using telling, fun _ _ _ => all given u hm⟩

theorem closePredictions_ok {path text : String} {f f' : Files}
    (opened : Files.truncate path f = .ok ⟨⟩ f') (filed : FiledIn f' q t)
    (output : t.session.scene.host.output = some text) : ∃ rest u, closePredictions path t = .ok ⟨⟩ u ∧
      u.desk.station.files.text? (Files.place path) = some (text ++ rest) ∧
      (Files.place path ≠ q → rest = "") := by
  have ⟨rest, g, written, standing, same⟩ := Files.overwrite_of_truncate opened filed text
  have closed : closePredictions path t = .ok ⟨⟩ { t with
      session.scene.host.output := none
      desk.station.files := g } := by
    simp [closePredictions, onHost, output, onDesk, onStation, Station.within, Step.within, written]
  exact ⟨rest, _, closed, standing, same⟩

-- A session at the beginning of the tests.
theorem openPredictions_ok {path : String} {u : Trial} (sound : t.session.scene.labeling.Sound)
    (h : openPredictions path t = .ok ⟨⟩ u) :
    Telling "" u ∧ Files.truncate path t.desk.station.files = .ok ⟨⟩ u.desk.station.files := by
  cases ht : Files.truncate path t.desk.station.files
  case error => simp [openPredictions, onHost, onDesk, onStation, Station.within, Step.within, ht] at h
  case ok =>
    simp only [openPredictions, onHost, onDesk, onStation, Station.within, Step.within, bind_apply,
      modify_apply, ht, EStateM.Result.ok.injEq, true_and] at h
    subst h
    exact ⟨⟨{ sound with }, rfl⟩, rfl⟩

def Sound (t : Trial) : Prop :=
  t.session.scene.labeling.Sound

theorem sound_onDesk {α : Type} (x : Step Desk α) : Keeps Sound (onDesk x) :=
  Keeps.within_other fun _ _ h => h

theorem sound_play (file : String) (places : List Nat) : Keeps Sound (play file places) := by
  refine Keeps.bind (Keeps.mapM fun place _ => Keeps.ensuring ?_ ?_) fun _ => Keeps.pure _
  case refine_1 => exact Keeps.within (fun _ _ => rfl) (Session.sound_runEpisode (some place))
  case refine_2 => exact keeps_fileEntries (fun _ _ h => h) (fun _ _ h => { h with }) file

theorem sound_train (file : String) (places : List Nat) (epochs : Setting Int) :
    Keeps Sound (train file places epochs) := by
  refine (sound_onDesk _).bind fun started => (Keeps.lift _).bind fun count => Keeps.forM fun i _ => ?_
  exact (sound_play file places).bind fun _ => (sound_onDesk _).bind fun _ => sound_onDesk _

-- What an experiment starts out from, once its episodes are made.
structure Stage where
  plan     : Plan
  file     : String
  training : Nat
  testing  : Nat
  session  : Session Apprentice

def stage (supply : Supply) (a : Arguments) : Step Desk Stage := do
  let clock := (← get).station.clock
  let plan ← Step.lift a.plan.plan
  let space ← Step.lift (layout a)
  let file ← Step.lift (logPath a clock.date)
  onStation (Station.record (some file)
    { tag := some "RUN", text := "[main] starting run | " ++ plan.summary } false)
  let training ← episodes supply space a a.trainEpisodes 0
  let testing ← episodes supply space a a.testEpisodes testOffset
  let session ← Step.lift (prepare a plan space clock (training ++ testing))
  return ⟨plan, file, training.length, testing.length, session⟩

-- Goes through with an experiment that is staged.
def perform (paint : Painter) (a : Arguments) (st : Stage) : Step Desk Unit := fun desk =>
  match conduct paint a st.plan st.file st.training st.testing ⟨desk, st.session⟩ with
  | .ok _ t => .ok () t.desk
  | .error e t => .error e t.desk

theorem run_eq (supply : Supply) (a : Arguments) :
    run supply paint a = stage supply a >>= perform paint a := by
  simp only [run, stage, bind_assoc, pure_bind]
  rfl

theorem sound_prepare {a : Arguments} {plan : Plan} {space : FeatureSpace} {clock : Clock}
    {shelf : List (List Record)} {s : Session Apprentice} (h : prepare a plan space clock shelf = .ok s) :
    s.scene.labeling.Sound := by
  have ⟨labels, _, h⟩ := Attempt.bind_eq_ok.mp h
  have ⟨policy, _, h⟩ := Attempt.bind_eq_ok.mp h
  have ⟨labeling, hl, h⟩ := Attempt.bind_eq_ok.mp h
  cases h
  exact (Labeling.started_of_start (outcome_ok.mp (Prod.ext hl rfl))).sound

theorem sound_stage (supply : Supply) (a : Arguments) :
    Yields (fun st => st.session.scene.labeling.Sound) (stage supply a) := by
  refine Yields.bind fun desk => Yields.bind fun plan => Yields.bind fun space => Yields.bind fun file => ?_
  refine Yields.bind fun _ => Yields.bind fun training => Yields.bind fun testing => ?_
  refine Yields.lift_bind fun session hp => ?_
  intro _ st _ h
  cases h
  exact sound_prepare hp

end Experiment
end CollectiveLabeling
