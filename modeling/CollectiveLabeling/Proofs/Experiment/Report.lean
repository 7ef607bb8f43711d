import CollectiveLabeling.Proofs.Experiment
import CollectiveLabeling.Proofs.Session.Fixed

namespace CollectiveLabeling.Experiment

open Step
open Session (Event)

variable {file : String} {paint : Painter} {t : Trial}

-- What stands in the file of predictions after the tests.
def Written (f : Files) (log path : String) (rows : List (List Int)) : Prop :=
  ∃ rest, f.text? (Files.place path) = some (report rows ++ rest) ∧
    (Files.place path ≠ Files.place log → rest = "")

theorem Written.of_filed {f f' : Files} {log path : String} {rows : List (List Int)}
    (h : Written f log path rows) (filed : f.Filed (Files.place log) f') : Written f' log path rows := by
  have ⟨rest, standing, same⟩ := h
  have ⟨added, standing', same'⟩ := filed.text _ _ standing
  refine ⟨rest ++ added, by rw [standing', String.append_assoc], fun ne => ?_⟩
  rw [same ne, same' ne, String.append_empty]

-- Filing keeps what is written.
theorem Written.keeps {α : Type} {log path : String} {rows : List (List Int)} {x : Step Trial α}
    (filed : ∀ f₀, Keeps (FiledIn f₀ (Files.place log)) x) :
    Keeps (fun t => Written t.desk.station.files log path rows) x :=
  fun t h => h.of_filed (filed _ t (.refl _ _))

-- So does drawing, as long as the picture goes elsewhere.
theorem Written.keeps_draw {log path : String} {rows : List (List Int)} {plot : Option String}
    (spares : paint.Spares plot (Files.place path)) (losses : List Float) :
    Keeps (fun t => Written t.desk.station.files log path rows) (draw paint plot losses) := by
  refine Experiment.keeps_draw (I := fun f => Written f log path rows) ?_ losses
  intro drawn hp picture he f ⟨rest, standing, same⟩
  exact ⟨rest, (spares drawn hp picture he f).trans standing, same⟩

variable (file) in
theorem written_of_test {path : String} {t₀ : Trial} (telling : Telling "" t)
    (opened : Files.truncate path t₀.desk.station.files = .ok ⟨⟩ t.desk.station.files)
    (places : List Nat) : ∃ u, Written u.desk.station.files file path (completed file places t) ∧
      Step.ensuring (play file places) (closePredictions path) t = match play file places t with
        | .ok losses _ => .ok losses u
        | .error e _ => .error e u := by
  have telling' := (telling_play telling file places).left
  have filed : FiledIn t.desk.station.files (Files.place file) (outcome (play file places) t).2 :=
    filed_play places t (.refl _ _)
  have ⟨rest, u, closed, standing, same⟩ := closePredictions_ok opened filed telling'.output
  refine ⟨u, ⟨rest, by simpa using standing, same⟩, ?_⟩
  cases hp : play file places t <;> simp only [outcome, hp] at closed <;>
    simp only [Step.ensuring, hp, bind_apply, closed] <;> rfl

section Conduct

variable {a : Arguments} {path : String} {training : Nat} {t₀ t₁ : Trial}

theorem written_of_conduct (asked : Arguments.path? a.predictions = some path)
    (spares : paint.Spares (Arguments.path? a.plot) (Files.place path))
    (trained : train file (List.range training) a.epochs t₀ = .ok ⟨⟩ t₁)
    (opened : openPredictions path t₁ = .ok ⟨⟩ t) (sound : Sound t₀)
    (plan : Plan) (testing : Nat) :
    Written (outcome (conduct paint a plan file training testing) t₀).2.desk.station.files file path
      (completed file ((List.range testing).map (training + ·)) t) ∧
    ∀ u, conduct paint a plan file training testing t₀ = .ok ⟨⟩ u →
      (completed file ((List.range testing).map (training + ·)) t).length = testing := by
  have ⟨telling, truncated⟩ := openPredictions_ok ((sound_train file _ _).of_ok sound trained) opened
  have ⟨u, written, tested⟩ :=
    written_of_test file telling truncated ((List.range testing).map (training + ·))
  rw [conduct_eq asked, outcome, bind_ok trained, bind_ok opened, bind_apply, tested]
  cases hp : play file ((List.range testing).map (training + ·)) t
  case error e u' => exact ⟨written, fun _ h => by cases h⟩
  case ok losses u' =>
    have kept {rows : List (List Int)} : Keeps (fun u => Written u.desk.station.files file path rows)
        (draw paint (Arguments.path? a.plot) losses >>= fun _ => sumUp plan file losses) :=
      (Written.keeps_draw spares losses).bind fun _ => Written.keeps fun _ => filed_sumUp plan losses
    have all := (telling_play telling file _).right losses u' hp
    exact ⟨kept u written, fun _ _ => by simpa using all⟩

end Conduct

-- The tests of an experiment when they begin, with the log, the file of predictions and the plot that is
-- asked for.
structure Tests where
  log    : String
  path   : String
  plot   : Option String
  places : List Nat
  trial  : Trial

-- Goes through an experiment up to its tests. There are none if it fails before, if no predictions are
-- asked for or if their file cannot be opened.
def tests? (supply : Supply) (arguments : List String) (desk : Desk) : Option Tests :=
  match Arguments.parse arguments with
  | .error _ => none
  | .ok a =>
    match Arguments.path? a.predictions, stage supply a desk with
    | some path, .ok st desk =>
      match (train st.file (List.range st.training) a.epochs >>= fun _ => openPredictions path)
          ⟨desk, st.session⟩ with
      | .ok _ trial => some {
          log    := st.file
          path   := path
          plot   := Arguments.path? a.plot
          places := (List.range st.testing).map (st.training + ·)
          trial  := trial }
      | .error _ _ => none
    | _, _ => none

-- The rows that an experiment reports: the labels of each test episode that is completed.
def Tests.rows (tests : Tests) : List (List Int) :=
  completed tests.log tests.places tests.trial

theorem written_of_main {supply : Supply} {arguments : List String} {desk : Desk} {tests : Tests}
    (h : tests? supply arguments desk = some tests)
    (spares : paint.Spares tests.plot (Files.place tests.path)) :
    Written (main supply paint arguments desk).2.station.files tests.log tests.path tests.rows ∧
    ((main supply paint arguments desk).1 = .done → tests.rows.length = tests.places.length) := by
  simp only [tests?] at h
  split at h <;> try contradiction
  case h_2 a parsed =>
    split at h <;> try contradiction
    case h_1 path st desk' asked staged =>
      split at h <;> try contradiction
      case h_1 trial reached =>
        cases h
        obtain ⟨_, t₁, trained, opened⟩ := bind_eq_ok.mp reached
        have sound := sound_stage supply a desk st desk' staged
        obtain ⟨written, all⟩ := written_of_conduct asked spares trained opened sound st.plan st.testing
        simp only [main, parsed, run_eq, bind_apply, staged, perform]
        cases hc : conduct paint a st.plan st.file st.training st.testing ⟨desk', st.session⟩
        case error e t =>
          rw [outcome_error.mpr hc] at written
          exact ⟨written, fun h => by cases h⟩
        case ok u t =>
          rw [outcome_ok.mpr hc] at written
          exact ⟨written, fun _ => (all t hc).trans (by simp)⟩

section Reported

variable {σ : Type} [Decider σ] {s t : Session σ} {es : List (Event σ)}

-- A run that returns is reported once, by its loss and by the line of its labels, and one that fails is
-- not reported at all. So the losses and the lines of a session's life are those of its successful runs,
-- in this order, and the labels can be read back from the lines. The same holds of the file that an
-- experiment writes for its tests, unless a picture is put into that very file afterwards.
theorem reported_all_or_nothing (opened : s.Opened) (life : s.Life es t) :
    (∀ pred u, Session.run t = .ok pred u →
      (∃ f, t.scene.labeling.frame = some f ∧ pred.size = f.graph.nodes.size) ∧
      ∃ k, u.scene.labeling.confusion = some k ∧
        u.scene.labeling.lastLoss = some (1.0 - k.macroF1) ∧
        u.scene.host.losses = t.scene.host.losses.push (1.0 - k.macroF1) ∧
        u.scene.host.output = t.scene.host.output.map (· ++ (labelLine pred.toList ++ "\n"))) ∧
    (∀ e u, Session.run t = .error e u → u.standing = t.standing) ∧
    (∀ labels, '\n' ∉ (labelLine labels).toList ∧ readLabels (labelLine labels) = some labels ∧
      (labelLine labels = "" ↔ labels = [])) ∧
    ((es.filterMap Event.result?).map Prod.fst = es.filterMap Event.labels? ∧
      t.scene.host.losses.toList =
        s.scene.host.losses.toList ++ (es.filterMap Event.result?).map Prod.snd ∧
      t.scene.host.output =
        s.scene.host.output.map (· ++ report ((es.filterMap Event.labels?).map Array.toList))) ∧
    (∀ rows, (linesOf (report rows)).mapM readLabels = some rows) ∧
    ∀ supply paint arguments desk tests, tests? supply arguments desk = some tests →
      paint.Spares tests.plot (Files.place tests.path) →
      Written (main supply paint arguments desk).2.station.files tests.log tests.path tests.rows ∧
      ((main supply paint arguments desk).1 = .done → tests.rows.length = tests.places.length) := by
  have ⟨_, _, started⟩ := opened.started
  have ⟨labels, standing⟩ := life.reported started.sound
  have ⟨losses, output⟩ := s.standing.foldl_enter (es.filterMap Event.result?)
  rw [← standing] at losses output
  rw [labels] at output
  refine ⟨?returned, ?raised, ?line, ⟨labels, losses, output⟩, ?lines, fun _ _ _ _ _ => written_of_main⟩
  case returned =>
    intro pred u hr
    cases Session.accounted (life.sound started.sound)
    case failed hr' _ => cases hr.symm.trans hr'
    case done f _ k _ hr' hf size hk entered =>
      cases hr.symm.trans hr'
      exact ⟨⟨f, hf, size⟩, k, hk, congrArg Standing.lastLoss entered, congrArg Standing.losses entered,
        congrArg Standing.output entered⟩
  case raised =>
    intro e u hr
    cases Session.accounted (life.sound started.sound)
    case done hr' _ _ _ _ => cases hr.symm.trans hr'
    case failed hr' same =>
      cases hr.symm.trans hr'
      exact same
  case line =>
    exact fun labels => ⟨newline_not_mem labels, readLabels_labelLine labels, labelLine_eq_empty⟩
  case lines => exact fun rows => linesOf_report rows ▸ mapM_readLabels rows

-- A session in which an apprentice with a single label is tested, with a file for the lines.
def sampleTold : Session Apprentice :=
  { Session.sampleSingle .standard with scene.host.output := some "" }

theorem opened_sampleTold : sampleTold.Opened where
  start   := ⟨1, some .standard, "graph", sampleTold.scene.host, rfl⟩
  current := rfl

theorem predictions_sampleTold :
    (outcome (Session.predictions (some 0)) sampleTold).1 = .ok #[1, 1] := by
  have ⟨_, _, started⟩ := opened_sampleTold.started
  have ⟨_, accepted⟩ : ∃ order, sampleTold.Accepted (some 0) (Session.sampleGraph 1 0) order :=
    Session.accepted_of_graph started.sound rfl rfl
  have first : 0 ∈ List.range sampleTold.scene.labeling.plan.passes := by decide
  exact accepted.verdict_labels.trans <| accepted.labelsThrough_single rfl rfl
    (Session.capable_sampleSingle rfl) first fun _ => List.mem_range.mp

theorem run_sampleTold :
    ∃ t u, Session.setup (some 0) sampleTold = .ok ⟨⟩ t ∧ Session.run t = .ok #[1, 1] u := by
  have forgotten : sampleTold.forgotten = sampleTold := rfl
  have given := predictions_sampleTold
  rw [outcome, Session.predictions_apply, forgotten] at given
  cases hs : Session.setup (some 0) sampleTold
  case error => simp [hs] at given
  case ok t =>
    cases hr : Session.run t
    case error => simp [hs, hr] at given
    case ok pred u =>
      obtain rfl : pred = #[1, 1] := by simpa [hs, hr] using given
      exact ⟨t, u, rfl, hr⟩

-- An experiment without training, with one test episode of two nodes.
def sampleArguments : List String :=
  ["--labels", "1", "--train_episodes", "0", "--test_episodes", "1", "--epochs", "0", "--bits", "18",
    "--log_file", "l", "--predictions", "p", "--plot", "c"]

def sampleSettings : Arguments where
  labels        := .given 1
  trainEpisodes := .given 0
  testEpisodes  := .given 1
  epochs        := .given 0
  bits          := .given 18
  logFile       := some (.given "l")
  predictions   := some (.given "p")
  plot          := some (.given "c")

def sampleSupply : Supply := fun _ _ => .ok (Session.sampleEpisode 1 0)

def sampleDesk : Desk where
  station := { clock := { date := ⟨2001, 2, 3, 4, 5, 6⟩ } }

set_option maxRecDepth 20000 in
theorem parse_sample : Arguments.parse sampleArguments = .ok sampleSettings := by
  with_unfolding_all rfl

theorem record_sample (e : Entry) : ∃ text, onStation (Station.record (some "l") e false) sampleDesk =
    .ok ⟨⟩ { sampleDesk with station.files.texts := [(["l"], text)] } := by
  have here : Files.directoryOf "l" = "" := by cbv
  have openable : Files.openable {} "l" = .ok ["l"] := by cbv
  refine ⟨e.written sampleDesk.station.clock.date, ?_⟩
  simp [onStation, Station.record, here, Station.within, Step.within, Files.append, sampleDesk, openable,
    lift_ok, Files.setText, Files.isFile, Files.text?]

-- The apprentice of an experiment begins in training, and without a file for the lines.
theorem prepare_sample : prepare sampleSettings .standard .standard sampleDesk.station.clock
    [Session.sampleEpisode 1 0] =
      .ok { Session.sampleSingle .standard with scene.host.mind.training := true } :=
  rfl

theorem stage_sample : ∃ text asked, stage sampleSupply sampleSettings sampleDesk =
    .ok ⟨.standard, "l", 0, 1, { Session.sampleSingle .standard with scene.host.mind.training := true }⟩
      { sampleDesk with station.files.texts := [(["l"], text)], asked } := by
  have planned : sampleSettings.plan.plan = .ok .standard := rfl
  have laidOut : layout sampleSettings = .ok .standard := rfl
  have ⟨text, recorded⟩ := record_sample
    { tag := some "RUN", text := "[main] starting run | " ++ Plan.standard.summary }
  have training (desk : Desk) :
      episodes sampleSupply .standard sampleSettings (.given 0) 0 desk = .ok [] desk := rfl
  have testing (desk : Desk) : episodes sampleSupply .standard sampleSettings (.given 1) testOffset desk =
      .ok [Session.sampleEpisode 1 0]
        { desk with asked := desk.asked.push (commission sampleSettings 11337) } := rfl
  refine ⟨text, #[commission sampleSettings 11337], ?_⟩
  refine (bind_ok rfl).trans <| (bind_ok (lift_eq_ok.mpr ⟨planned, rfl⟩)).trans ?_
  refine (bind_ok (lift_eq_ok.mpr ⟨laidOut, rfl⟩)).trans <| (bind_ok rfl).trans ?_
  refine (bind_ok recorded).trans <| (bind_ok (training _)).trans <| (bind_ok (testing _)).trans ?_
  exact (bind_ok (lift_eq_ok.mpr ⟨prepare_sample, rfl⟩)).trans rfl

theorem tests_sample : ∃ desk, tests? sampleSupply sampleArguments sampleDesk =
    some ⟨"l", "p", some "c", [0], ⟨desk, sampleTold⟩⟩ := by
  have path : Arguments.path? sampleSettings.predictions = some "p" := rfl
  have openable (text : String) : Files.openable { texts := [(["l"], text)] } "p" = .ok ["p"] := by cbv
  have plot : Arguments.path? sampleSettings.plot = some "c" := rfl
  have epochs : sampleSettings.epochs = .given 0 := rfl
  obtain ⟨text, asked, staged⟩ := stage_sample
  simp only [tests?, parse_sample, path, plot, staged]
  simp [train, epochs, Setting.value, openPredictions, onHost, onDesk, onStation,
    Step.within, Clock.read, Station.within, Files.truncate, lift_ok, sampleDesk, openable]
  rfl

theorem places_sample : Files.place "l" = ["l"] ∧ Files.place "p" = ["p"] ∧ Files.place "c" = ["c"] := by
  refine ⟨?_, ?_, ?_⟩ <;> cbv

theorem rows_sample (desk : Desk) :
    Tests.rows ⟨"l", "p", some "c", [0], ⟨desk, sampleTold⟩⟩ = [[1, 1]] := by
  simp only [Tests.rows, completed, predictions_sampleTold]
  split <;> rfl

-- A run without an episode fails; then an episode of two nodes is set up and run. In the same way two
-- labels stand in the file of the experiment, and they are still there when the picture is drawn.
theorem reported_all_or_nothing_sample :
    let paint := Painter.ofText Picture.title
    (∃ es t, sampleTold.Life es t ∧ es.length = 3 ∧ t.scene.host.losses.size = 1 ∧
      t.scene.host.output = some "1 1\n" ∧ (linesOf "1 1\n").mapM readLabels = some [[1, 1]]) ∧
    ∃ tests, tests? sampleSupply sampleArguments sampleDesk = some tests ∧ tests.plot = some "c" ∧
      paint.Spares tests.plot (Files.place tests.path) ∧ tests.rows = [[1, 1]] ∧
      (main sampleSupply paint sampleArguments sampleDesk).2.station.files.text? ["p"] = some "1 1\n" := by
  intro paint
  have ⟨t, u, hs, hr⟩ := run_sampleTold
  have early : Session.Life sampleTold [⟨.run, sampleTold⟩] sampleTold := Session.Life.refl.move .run
  have life : Session.Life sampleTold [⟨.run, sampleTold⟩, ⟨.setup (some 0), sampleTold⟩] t := by
    have after : Event.after ⟨.setup (some 0), sampleTold⟩ = t :=
      congrArg Prod.snd (outcome_ok.mpr (Session.move_setup_ok hs))
    exact after ▸ early.move (.setup (some 0))
  have ⟨_, _, _, ⟨entries, losses, output⟩, lines, tested⟩ :=
    reported_all_or_nothing opened_sampleTold (life.move .run)
  have failed : Event.labels? ⟨.run, sampleTold⟩ = none := rfl
  have once : List.filterMap Event.labels?
      ([⟨.run, sampleTold⟩, ⟨.setup (some 0), sampleTold⟩] ++ [⟨.run, t⟩]) = [#[1, 1]] := by
    simp [failed, Event.labels?_setup, Event.labels?_run hr]
  have text : report [[1, 1]] = "1 1\n" := by decide +kernel
  have ⟨desk, reached⟩ := tests_sample
  have ⟨log, predictions, plot⟩ := places_sample
  have spares : paint.Spares (some "c") (Files.place "p") :=
    Painter.spares_ofText (by simp [plot, predictions]) Picture.title
  have ⟨⟨rest, standing, same⟩, _⟩ := tested sampleSupply paint sampleArguments sampleDesk _ reached spares
  refine ⟨⟨_, _, life.move .run, rfl, ?losses, ?output, ?lines⟩, _, reached, rfl, spares,
    rows_sample desk, ?file⟩
  case losses =>
    rw [← Array.length_toList, losses, List.length_append, List.length_map, ← List.length_map Prod.fst,
      entries, once]
    rfl
  case output =>
    rw [output, once]
    exact congrArg some text
  case lines => exact text ▸ lines [[1, 1]]
  case file =>
    have apart : Files.place "p" ≠ Files.place "l" := by simp [log, predictions]
    rw [rows_sample desk, text, same apart, String.append_empty, predictions] at standing
    exact standing

end Reported

end CollectiveLabeling.Experiment
