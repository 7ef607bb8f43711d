import CollectiveLabeling.Proofs.Session.Fixed
import CollectiveLabeling.Proofs.Session.Life
import CollectiveLabeling.Proofs.Session.Sequential

namespace CollectiveLabeling

open Step

-- A frame in which this graph is worked on. Only the labels have changed since it was set up, and
-- such features of its nodes as decisions leave behind.
structure Frame.Bears (f : Frame) (g : Hypergraph) : Prop where
  visit     : Sweep.order g = .ok f.order
  costs     : f.graph.nodes.map Record.costs = g.nodes.map Record.costs
  edges     : f.graph.edges = g.edges
  adjacency : f.graph.adjacency = g.adjacency

theorem Frame.Bears.resume {f : Frame} {g : Hypergraph} (h : f.Bears g) {a : Augmenter} {w : Workbench}
    (same : (Workbench.mk f.graph a).Same w) (pred : Array Int) :
    Frame.Bears { f with graph := w.graph, pred } g where
  visit     := h.visit
  costs     := same.costs.trans h.costs
  edges     := same.edges.trans h.edges
  adjacency := same.adjacency.trans h.adjacency

namespace Session

variable {σ : Type} [Decider σ] {s t : Session σ} {x : Option (List Record)} {e refusal : Event σ}
  {es before since : List (Event σ)}

namespace Event

def Refused (e : Event σ) : Prop :=
  ∃ place f, e.move = .setup place ∧ e.answer = .error f

-- What is held after a move, given what was held before: the episode that it sets up, or nothing any
-- more if it takes down. Every other move leaves that as it is, and so does a setup that is refused.
def turn (held : Option (List Record)) (e : Event σ) : Option (List Record) :=
  match e.move, e.answer with
  | .setup place, .ok _ => some (e.before.episode place)
  | .takedown, _ => none
  | _, _ => held

theorem turn_takedown (h : e.move = .takedown) : e.turn x = none := by
  simp only [turn, h]

theorem turn_of_idle (idle : e.Idle) (h : e.move ≠ .takedown) : e.turn x = x := by
  simp only [turn]
  split
  case h_1 place _ hm ha =>
    have ⟨_, failed⟩ := idle place hm
    cases ha.symm.trans failed
  case h_2 hm => exact absurd hm h
  case h_3 => rfl

theorem refused_of_setup {place : Option Nat} {f : Fault} (h : setup place s = .error f t) :
    Refused ⟨.setup place, s⟩ :=
  ⟨place, f, rfl, congrArg Prod.fst (outcome_error.mpr (move_setup_error h))⟩

theorem Refused.turn (h : e.Refused) : e.turn x = x := by
  have ⟨place, f, hm, ha⟩ := h
  refine turn_of_idle (fun _ _ => ⟨f, ha⟩) ?_
  rw [hm]
  exact nofun

end Event

omit [Decider σ] in
theorem setup_refused {place : Option Nat} {d : Defect}
    (hd : Episode.toGraph (some s.scene.labeling.labels) (s.episode place) = .error d) :
    ∃ clock entries, setup place s =
      .error (Fault.raised (.defect d)) { s with scene := s.scene.noted clock entries } := by
  have ⟨clock, entries, hs⟩ := Scene.setup_error hd
  exact ⟨clock, entries, setup_error hs⟩

-- The records that are held after these events, as they were when they were set up.
def held (es : List (Event σ)) : Option (List Record) :=
  es.foldl Event.turn none

theorem foldl_turn_none (idle : ∀ e ∈ es, e.Idle) : es.foldl Event.turn none = none := by
  induction es
  case nil => rfl
  case cons e es hi =>
    have ⟨first, rest⟩ := List.forall_mem_cons.mp idle
    have nothing : e.turn none = none := by
      by_cases h : e.move = .takedown
      case pos => exact Event.turn_takedown h
      case neg => exact Event.turn_of_idle first h
    rw [List.foldl_cons, nothing, hi rest]

theorem foldl_turn_of_taken (idle : ∀ e ∈ es, e.Idle) (taken : ∃ e ∈ es, e.move = .takedown) :
    es.foldl Event.turn x = none := by
  have ⟨e, hm, he⟩ := taken
  obtain ⟨earlier, later, rfl⟩ := List.append_of_mem hm
  rw [List.foldl_append, List.foldl_cons, Event.turn_takedown he]
  exact foldl_turn_none fun e h => idle e (by simp [h])

theorem foldl_turn_of_kept (idle : ∀ e ∈ es, e.Idle) (kept : ∀ e ∈ es, e.move ≠ .takedown) :
    es.foldl Event.turn x = x := by
  induction es
  case nil => rfl
  case cons e es hi =>
    have ⟨first, idle⟩ := List.forall_mem_cons.mp idle
    have ⟨up, kept⟩ := List.forall_mem_cons.mp kept
    rw [List.foldl_cons, Event.turn_of_idle first up, hi idle kept]

-- What is said to be held is what there is to work on.
inductive Holds (s : Session σ) : Option (List Record) → Prop
  | nothing : s.scene.labeling.frame = none → Holds s none
  | episode {records : List Record} {f : Frame} {g : Hypergraph} : s.scene.labeling.frame = some f →
      Episode.toGraph (some s.scene.labeling.labels) records = .ok g → f.Bears g → Holds s (some records)

namespace Holds

omit [Decider σ] in
theorem congr (h : s.Holds x) (frame : t.scene.labeling.frame = s.scene.labeling.frame)
    (labels : t.scene.labeling.labels = s.scene.labeling.labels) : t.Holds x := by
  cases h
  case nothing hf => exact .nothing (frame.trans hf)
  case episode hf hg bears => exact .episode (frame.trans hf) (labels ▸ hg) bears

theorem setup (h : s.Holds x) (sound : s.scene.labeling.Sound) (place : Option Nat) :
    (Event.after ⟨.setup place, s⟩).Holds (Event.turn x ⟨.setup place, s⟩) := by
  cases Scene.setUp sound (s.episode place)
  case refused hs =>
    have failed := outcome_error.mpr (move_setup_error (setup_error hs))
    rw [(Event.refused_of_setup (setup_error hs)).turn, Event.after, failed]
    exact h.congr rfl rfl
  case accepted hg ho _ hs =>
    have done := outcome_ok.mpr (move_setup_ok (setup_ok hs))
    have turn : Event.turn x ⟨.setup place, s⟩ = some (s.episode place) := by
      simp only [Event.turn, Event.answer, done]
    rw [turn, Event.after, done]
    exact .episode rfl hg ⟨ho, rfl, rfl, rfl⟩

theorem run (h : s.Holds x) (sound : s.scene.labeling.Sound) : (outcome Session.run s).2.Holds x := by
  rw [outcome_run]
  cases Scene.ended sound
  case refused hr =>
    rw [outcome_error.mpr hr]
    exact h.congr (by rw [shelve_scene]) (by rw [shelve_scene])
  case ran hf _ ran =>
    cases h
    case nothing unset => cases unset.symm.trans hf
    case episode hf' hg bears =>
      cases hf.symm.trans hf'
      cases ran
      case failed same hr =>
        rw [outcome_error.mpr hr]
        exact .episode (by rw [shelve_scene]; rfl) (by rw [shelve_scene]; exact hg) (bears.resume same _)
      case done same _ _ hr =>
        rw [outcome_ok.mpr hr]
        exact .episode (by rw [shelve_scene]; rfl) (by rw [shelve_scene]; exact hg) (bears.resume same _)

theorem move (h : s.Holds x) (sound : s.scene.labeling.Sound) (m : Move) :
    (Event.after ⟨m, s⟩).Holds (Event.turn x ⟨m, s⟩) := by
  cases m
  case setup place => exact h.setup sound place
  case takedown => exact .nothing rfl
  case finish => exact h.congr rfl rfl
  case run =>
    have idle : Event.Idle ⟨.run, s⟩ := fun _ h => nomatch h
    rw [Event.turn_of_idle idle (fun h => nomatch h), Event.after, outcome_move]
    exact h.run sound

end Holds

theorem Life.holds (life : s.Life es t) (opened : s.Opened) : t.Holds (held es) := by
  have ⟨_, _, started⟩ := opened.started
  induction life
  case refl => exact .nothing started.unset
  case surroundings hi => exact hi.congr rfl rfl
  case move m life hi =>
    rw [held, List.foldl_append]
    exact hi.move (life.sound started.sound) m

theorem run_unset (h : t.scene.labeling.frame = none) : run t = .error (.misuse .notSetUp) t := by
  have same : t.shelve = t := shelve_eq_self fun f hf => by cases h.symm.trans hf
  exact (run_error (Scene.run_unset h)).trans (congrArg _ same)

-- A run on the graph of these records, unless the labeling is finished.
structure WorksOn (t : Session σ) (records : List Record) (f : Frame) (g : Hypergraph) : Prop where
  frame    : t.scene.labeling.frame = some f
  graph    : Episode.toGraph (some t.scene.labeling.labels) records = .ok g
  bears    : f.Bears g
  finished : t.scene.labeling.confusion = none → run t = .error .finished t.shelve
  decides  : t.scene.labeling.confusion.isSome →
    t.Inference f t.scene.labeling.labels t.scene.labeling.plan (t.scene.decisions f)

theorem Holds.worksOn {records : List Record} (h : t.Holds (some records))
    (sound : t.scene.labeling.Sound) : ∃ f g, t.WorksOn records f g := by
  cases h
  case episode f g hf bears hg =>
    exact ⟨f, g, hf, hg, bears, fun hk => run_error (Scene.run_finished hf hk), inference sound hf⟩

-- A run that comes after a refused setup is refused as well if nothing was held before or it has been
-- taken down since. Otherwise the episode that was held before is worked on once more.
theorem run_after_refusal (opened : s.Opened) (life : s.Life (before ++ refusal :: since) t)
    (refused : refusal.Refused) (idle : ∀ e ∈ since, e.Idle) :
    (held before = none ∨ (∃ e ∈ since, e.move = .takedown) →
      run t = .error (.misuse .notSetUp) t) ∧
    ∀ records, held before = some records → (∀ e ∈ since, e.move ≠ .takedown) →
      ∃ f g, t.WorksOn records f g := by
  have ⟨_, _, started⟩ := opened.started
  have holds := life.holds opened
  have past : held (before ++ refusal :: since) = since.foldl Event.turn (held before) := by
    rw [held, List.foldl_append, List.foldl_cons, refused.turn]
    rfl
  rw [past] at holds
  refine ⟨fun nothing => run_unset ?_, fun records set kept => ?_⟩
  case refine_1 =>
    have unset : since.foldl Event.turn (held before) = none := by
      cases nothing
      case inl unset => rw [unset, foldl_turn_none idle]
      case inr taken => exact foldl_turn_of_taken idle taken
    rw [unset] at holds
    cases holds
    case nothing hf => exact hf
  case refine_2 =>
    rw [foldl_turn_of_kept idle kept, set] at holds
    exact holds.worksOn (life.sound started.sound)

section Sample

-- The sample with a second episode that is refused, an edge without nodes.
def sampleRefusal (host : Host σ) : Session σ :=
  { sample host with shelf := #[sampleEpisode 1 2, [sampleEdge]] }

theorem opened_sampleRefusal (host : Host σ) : (sampleRefusal host).Opened where
  start   := (opened_sample host).start
  current := rfl

omit [Decider σ] in
theorem setup_sampleEdge (h : s.episode (some 1) = [sampleEdge]) : ∃ clock entries,
    setup (some 1) s = .error (.defect .edgesWithoutNodes) { s with scene := s.scene.noted clock entries } := by
  have hd : Episode.toGraph (some s.scene.labeling.labels) (s.episode (some 1)) =
      .error .edgesWithoutNodes := by
    rw [h]
    rfl
  exact setup_refused hd

theorem refused_sampleEdge (h : s.episode (some 1) = [sampleEdge]) :
    Event.Refused ⟨.setup (some 1), s⟩ := by
  have ⟨_, _, hs⟩ := setup_sampleEdge h
  exact Event.refused_of_setup hs

theorem accepted_sampleRefusal (host : Host σ) : ∃ t,
    setup (some 0) (sampleRefusal host) = .ok ⟨⟩ t ∧ t.shelf = (sampleRefusal host).shelf := by
  have ⟨_, _, started⟩ := (opened_sampleRefusal host).started
  cases Scene.setUp started.sound ((sampleRefusal host).episode (some 0))
  case refused hd _ => cases hd
  case accepted hs => exact ⟨_, setup_ok hs, rfl⟩

end Sample

-- First with nothing set up before, then with an episode that was.
theorem run_after_refusal_sample :
    let s : Session Scripted := sampleRefusal
      { mind := { space := none, wantsInput := true, script := ⟨.always 1, none⟩ } }
    let first : Event Scripted := ⟨.setup (some 0), s⟩
    let refusal : Event Scripted := ⟨.setup (some 1), s⟩
    let refusal' : Event Scripted := ⟨.setup (some 1), first.after⟩
    run refusal.after = .error (.misuse .notSetUp) refusal.after ∧
      ∃ f g, refusal'.after.WorksOn (sampleEpisode 1 2) f g := by
  intro s first refusal refusal'
  have opened : s.Opened := opened_sampleRefusal _
  have life := (Life.refl (s := s)).move (.setup (some 1))
  have life' := (Life.refl (s := s)).move (.setup (some 0)) |>.move (.setup (some 1))
  have ⟨t, hs, shelf⟩ := accepted_sampleRefusal s.scene.host
  have done : outcome (move (.setup (some 0))) s = (.ok none, t) := outcome_ok.mpr (move_setup_ok hs)
  have after : first.after = t := congrArg Prod.snd done
  have refused : refusal'.Refused := refused_sampleEdge (by rw [after, episode, shelf]; rfl)
  have set : held [first] = some (sampleEpisode 1 2) := by
    have answer : first.answer = .ok none := congrArg Prod.fst done
    simp only [held, List.foldl_cons, List.foldl_nil, Event.turn, answer]
    rfl
  refine ⟨?nothing, ?former⟩
  case nothing =>
    exact (run_after_refusal opened life (refused_sampleEdge rfl) (List.forall_mem_nil _)).left (.inl rfl)
  case former =>
    exact (run_after_refusal opened life' refused (List.forall_mem_nil _)).right _ set
      (List.forall_mem_nil _)

-- Here a run comes after a setup that was refused and is worked through all the same, on the episode
-- that had been set up before.
theorem refusal_leaves_episode_in_place :
    let s : Session Apprentice := sampleRefusal sampleTest.scene.host
    let first : Event Apprentice := ⟨.setup (some 0), s⟩
    let refusal : Event Apprentice := ⟨.setup (some 1), first.after⟩
    s.Opened ∧ s.Life [first, refusal] refusal.after ∧ refusal.Refused ∧
      ∃ pred u, run refusal.after = .ok pred u ∧ pred.size = 2 := by
  intro s first refusal
  have opened : s.Opened := opened_sampleRefusal _
  have life := (Life.refl (s := s)).move (.setup (some 0)) |>.move (.setup (some 1))
  have ⟨_, _, started⟩ := opened.started
  have ⟨order, accepted⟩ : ∃ order, s.Accepted (some 0) (sampleGraph 1 2) order :=
    accepted_of_graph started.sound rfl rfl
  have capable : (s.opening (sampleGraph 1 2)).Capable 2 .standard := {
    movable := movable_sampleGraph 1 2
    known   := fun _ _ => rfl
    pos     := Nat.succ_pos 1
    le      := Nat.le_refl 2 }
  have ⟨c, hc⟩ := Course.follow_of_capable (accepted.ready rfl) capable accepted.of_schedule
  have ⟨t, hs, shelf⟩ := accepted_sampleRefusal s.scene.host
  have ⟨_, hs', sound, hf, labels, plan, confusion, _, opening⟩ := accepted.setup
  cases hs'.symm.trans hs
  have after : first.after = t := congrArg Prod.snd (outcome_ok.mpr (move_setup_ok hs))
  have edge : t.episode (some 1) = [sampleEdge] := by rw [episode, shelf]; rfl
  obtain ⟨clock, entries, hu⟩ := setup_sampleEdge edge
  have after' : refusal.after = { t with scene := t.scene.noted clock entries } := by
    simp only [refusal, after]
    exact congrArg Prod.snd (outcome_error.mpr (move_setup_error hu))
  have refused : refusal.Refused := by
    simp only [refusal, after]
    exact refused_sampleEdge edge
  refine ⟨opened, life, refused, ?_⟩
  rw [after']
  have sound' : (t.scene.noted clock entries).labeling.Sound := { sound with }
  cases Scene.ran sound' hf confusion
  case failed hw _ _ =>
    have course : (t.scene.noted clock entries).opening _ = s.opening (sampleGraph 1 2) := opening
    rw [course] at hw
    cases (labels ▸ plan ▸ hw).symm.trans hc
  case done hr =>
    obtain ⟨_, _, completed⟩ := completed_run (t := { t with scene := t.scene.noted clock entries }) sound'
      hf confusion (run_ok hr)
    exact ⟨_, _, run_ok hr, completed.size⟩

end Session
end CollectiveLabeling
