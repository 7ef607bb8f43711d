import CollectiveLabeling.Proofs.Course.Part
import CollectiveLabeling.Proofs.Session.History

namespace CollectiveLabeling.Session

open Step

variable {s : Session Apprentice} {place : Option Nat} {g : Hypergraph} {order : List Nat}

-- The course of an episode with this graph, when the apprentice begins to work through it.
def opening (s : Session Apprentice) (g : Hypergraph) : Course Apprentice where
  bench := ⟨g, s.scene.labeling.augmenter⟩
  pred  := Array.replicate g.nodes.size s.scene.labeling.undecided
  mind  := { s.scene.host.mind with memory := ∅ }

-- An episode that is accepted, with its graph and the order of the visit.
structure Accepted (s : Session Apprentice) (place : Option Nat) (g : Hypergraph) (order : List Nat) :
    Prop where
  sound      : s.scene.labeling.Sound
  unfinished : s.scene.labeling.confusion.isSome
  graph      : Episode.toGraph (some s.scene.labeling.labels) (s.episode place) = .ok g
  visit      : Sweep.order g = .ok order

theorem Accepted.sound_graph (h : s.Accepted place g order) : g.Sound s.scene.labeling.labels :=
  Episode.sound_toGraph h.graph

theorem Accepted.order_perm (h : s.Accepted place g order) :
    order.Perm (List.range g.nodes.size) := by
  have ⟨_, ho, perm⟩ := Sweep.order_perm h.sound_graph
  cases ho.symm.trans h.visit
  exact perm

theorem Accepted.scratch (h : s.Accepted place g order) :
    (s.opening g).bench.augmenter.scratch.cells.size = s.scene.labeling.labels + 1 :=
  h.sound.scratch h.unfinished

theorem Accepted.idle (h : s.Accepted place g order) : (s.opening g).Idle :=
  h.sound.idle

theorem Accepted.labeled (_ : s.Accepted place g order) :
    Hypergraph.Labeled s.scene.labeling.labels (s.opening g).bench.graph.nodes.size (s.opening g).pred where
  size  := Array.size_replicate
  range := fun x hx => by
    have held := (Array.mem_replicate.mp hx).right
    simp only [held, Labeling.undecided]
    omega

theorem Accepted.ready (h : s.Accepted place g order) (testing : s.scene.host.mind.training = false) :
    (s.opening g).Ready s.scene.labeling.labels where
  idle    := h.idle
  sound   := h.sound_graph
  labeled := h.labeled
  scratch := h.scratch
  testing := testing

theorem remembers_opening (s : Session Apprentice) (g : Hypergraph) :
    Remembers s.scene.labeling.labels (s.opening g).pred (s.opening g).mind.memory :=
  .empty _ _

theorem accepted_of_graph (sound : s.scene.labeling.Sound) (unfinished : s.scene.labeling.confusion.isSome)
    (hg : Episode.toGraph (some s.scene.labeling.labels) (s.episode place) = .ok g) :
    ∃ order, s.Accepted place g order :=
  have ⟨order, ho, _⟩ := Sweep.order_perm (Episode.sound_toGraph hg)
  ⟨order, sound, unfinished, hg, ho⟩

-- An episode that ends with a loss has been accepted.
theorem accepted_of_loss (sound : s.scene.labeling.Sound) {loss : Option Float}
    (h : (s.verdict place).loss = .ok loss) : ∃ g order, s.Accepted place g order := by
  cases Scene.setUp (s := s.forgotten.scene) sound (s.forgotten.episode place)
  case refused hs => cases (congrArg Verdict.loss (verdict_refused (setup_error hs))).symm.trans h
  case accepted g order _ _ hg ho _ _ =>
    cases hk : s.scene.labeling.confusion
    case none => cases (congrArg Verdict.loss (verdict_finished sound hk hg)).symm.trans h
    case some => exact ⟨g, order, sound, by simp [hk], hg, ho⟩

-- Takes the decisions of a run on an episode with this graph.
def course (s : Session Apprentice) (g : Hypergraph) (order : List Nat) :
    EStateM.Result Fault (Course Apprentice) Unit :=
  Course.follow s.scene.labeling.labels s.scene.labeling.plan (s.scene.labeling.plan.schedule order)
    (s.opening g)

-- What comes of working through an accepted episode only depends on the course that its run takes.
inductive Worked (s : Session Apprentice) (place : Option Nat) (g : Hypergraph) (order : List Nat) : Prop
  | failed {e : Fault} {c : Course Apprentice} : s.course g order = .error e c →
      s.verdict place = ⟨.error e, .error e, none⟩ → Worked s place g order
  | done {c : Course Apprentice} {k : Confusion} : s.course g order = .ok ⟨⟩ c →
      k.side = s.scene.labeling.labels + 1 →
      (∀ t p, k.count t p = Scene.tallied (g.trueLabels.zip c.pred.toList) t p) →
      s.verdict place = ⟨.ok (some k.loss), .ok c.pred, some k⟩ → Worked s place g order

theorem Accepted.setup (h : s.Accepted place g order) :
    ∃ t, setup place s.forgotten = .ok ⟨⟩ t ∧ t.scene.labeling.Sound ∧
      t.scene.labeling.frame = some (s.scene.labeling.frameOf g order) ∧
      t.scene.labeling.labels = s.scene.labeling.labels ∧
      t.scene.labeling.plan = s.scene.labeling.plan ∧
      t.scene.labeling.confusion = s.scene.labeling.confusion ∧
      t.scene.host = s.forgotten.scene.host ∧
      t.scene.opening (s.scene.labeling.frameOf g order) = s.opening g := by
  cases Scene.setUp (s := s.forgotten.scene) h.sound (s.forgotten.episode place)
  case refused hd _ => cases hd.symm.trans h.graph
  case accepted hg ho kept hs =>
    cases hg.symm.trans h.graph
    cases ho.symm.trans h.visit
    exact ⟨_, setup_ok hs, (kept.noted _ _).sound, rfl, rfl, rfl, rfl, rfl, rfl⟩

theorem Accepted.worked (h : s.Accepted place g order) : s.Worked place g order := by
  have ⟨t, hs, sound, hf, labels, plan, confusion, host, opening⟩ := h.setup
  have ⟨k, hk⟩ := Option.isSome_iff_exists.mp (confusion ▸ h.unfinished)
  have course : Course.follow t.scene.labeling.labels t.scene.labeling.plan
      (t.scene.labeling.plan.schedule order) (t.scene.opening (s.scene.labeling.frameOf g order)) =
      s.course g order := by
    rw [opening, labels, plan, Session.course]
  cases Scene.ran sound hf hk
  case failed hw _ hr => exact .failed (course ▸ hw) (verdict_failed hs (run_error hr))
  case done c k' _ _ hw _ side counts hr =>
    refine .done (course ▸ hw) (labels ▸ side) counts ?_
    refine verdict_done hs (run_ok hr) (by rw [shelve_scene]; rfl) ?_
    rw [shelve_scene]
    exact congrArg (·.losses.push k'.loss) host

-- The decisions that are reached when an episode is worked through. There are none if it is refused or
-- if the labeling is finished.
def reached (place : Option Nat) (s : Session Apprentice) : List (Decision Apprentice) :=
  match setup place s.forgotten with
  | .error _ _ => []
  | .ok _ t => match t.scene.labeling.frame, t.scene.labeling.confusion with
    | some f, some _ => t.scene.decisions f
    | _, _ => []

theorem Accepted.reached (h : s.Accepted place g order) : s.reached place =
    Course.decisions s.scene.labeling.labels s.scene.labeling.plan
      (s.scene.labeling.plan.schedule order) (s.opening g) := by
  have ⟨t, hs, _, hf, labels, plan, confusion, _, opening⟩ := h.setup
  have ⟨k, hk⟩ := Option.isSome_iff_exists.mp (confusion ▸ h.unfinished)
  simp only [Session.reached, hs, hf, hk, Scene.decisions, opening, labels, plan]
  rfl

theorem accepted_of_reached (sound : s.scene.labeling.Sound) {d : Decision Apprentice}
    (hd : d ∈ s.reached place) : ∃ g order, s.Accepted place g order := by
  cases Scene.setUp (s := s.forgotten.scene) sound (s.forgotten.episode place)
  case refused hs => simp [Session.reached, setup_error hs] at hd
  case accepted g order _ _ hg ho _ hs =>
    cases hk : s.scene.labeling.confusion
    case none =>
      have finished : s.forgotten.scene.labeling.confusion = none := hk
      simp [Session.reached, setup_ok hs, Scene.noted, Scene.withFrame, Scene.withPrior, finished] at hd
    case some => exact ⟨g, order, sound, by simp [hk], hg, ho⟩

end CollectiveLabeling.Session
