import CollectiveLabeling.Proofs.Course.Progress
import CollectiveLabeling.Proofs.Session.Course

namespace CollectiveLabeling

open Step

-- The labels that the nodes hold after these passes.
def Course.labelsThrough {σ : Type} [Decider σ] (labels : Nat) (plan : Plan) (order is : List Nat) :
    Step (Course σ) (Array Int) := do
  is.forM (pass labels plan order)
  return (← get).pred

theorem Course.labelsThrough_ok {σ : Type} [Decider σ] {labels : Nat} {plan : Plan}
    {order is : List Nat} {c : Course σ} {pred : Array Int} :
    (outcome (labelsThrough labels plan order is) c).1 = .ok pred ↔
      ∃ c', is.forM (pass labels plan order) c = .ok ⟨⟩ c' ∧ c'.pred = pred := by
  simp only [outcome, labelsThrough, bind_apply]
  cases is.forM (pass labels plan order) c <;> simp

namespace Scene

variable {σ : Type} [Decider σ] {s : Scene σ} {f : Frame} {k : Confusion}

-- The labels of the episode that is set up after these passes of a run.
def labelsThrough (is : List Nat) : Step (Scene σ) (Array Int) := do
  reset
  is.forM pass
  return (← currentFrame).pred

theorem outcome_labelsThrough (hf : s.labeling.frame = some f) (hk : s.labeling.confusion = some k)
    (is : List Nat) : (outcome (labelsThrough is) s).1 =
      (outcome (Course.labelsThrough s.labeling.labels s.labeling.plan f.order is) (s.opening f)).1 := by
  have ⟨clock, entries, hp⟩ := forM_pass_apply (s := s.readied f k) is rfl
  have opening : (s.readied f k).courseOf { f with
      pred := Array.replicate f.graph.nodes.size s.labeling.undecided } = s.opening f := rfl
  have labeling : (s.readied f k).labeling.labels = s.labeling.labels ∧
      (s.readied f k).labeling.plan = s.labeling.plan := ⟨rfl, rfl⟩
  rw [opening, labeling.left, labeling.right] at hp
  simp only [outcome, labelsThrough, Course.labelsThrough, bind_apply, reset_ok hf hk, hp]
  cases is.forM (Course.pass s.labeling.labels s.labeling.plan f.order) (s.opening f) <;> rfl

end Scene

namespace Session

variable {s₀ s s' : Session Apprentice} {place place' : Option Nat} {g : Hypergraph} {order is : List Nat}
  {pred : Array Int}

-- The labels of an episode after these passes of a run.
def labelsThrough (place : Option Nat) (is : List Nat) : Step (Session Apprentice) (Array Int) := do
  forget
  setup place
  onScene (Scene.labelsThrough is)

theorem outcome_onScene {σ α : Type} (x : Step (Scene σ) α) (s : Session σ) :
    (outcome (onScene x) s).1 = (outcome x s.scene).1 := by
  simp only [outcome, onScene, within]
  cases x s.scene <;> rfl

theorem labelsThrough_refused {e : Fault} {t : Session Apprentice}
    (h : setup place s.forgotten = .error e t) : (outcome (labelsThrough place is) s).1 = .error e := by
  simp [outcome, labelsThrough, forget_apply, h]

theorem labelsThrough_of_setup {t : Session Apprentice} (h : setup place s.forgotten = .ok ⟨⟩ t) :
    (outcome (labelsThrough place is) s).1 = (outcome (Scene.labelsThrough is) t.scene).1 := by
  rw [← outcome_onScene]
  simp only [outcome, labelsThrough, bind_apply, forget_apply, h]

theorem Accepted.labelsThrough (h : s.Accepted place g order) (is : List Nat) :
    (outcome (labelsThrough place is) s).1 = (outcome (Course.labelsThrough s.scene.labeling.labels
      s.scene.labeling.plan order is) (s.opening g)).1 := by
  have ⟨t, hs, _, hf, labels, plan, confusion, _, opening⟩ := h.setup
  have ⟨k, hk⟩ := Option.isSome_iff_exists.mp (confusion ▸ h.unfinished)
  rw [labelsThrough_of_setup hs, Scene.outcome_labelsThrough hf hk, labels, plan, opening]
  rfl

-- A run gives the labels that the nodes hold after all of its passes.
theorem Accepted.verdict_labels (h : s.Accepted place g order) : (s.verdict place).labels =
    (outcome (Session.labelsThrough place (List.range s.scene.labeling.plan.passes)) s).1 := by
  have course : (List.range s.scene.labeling.plan.passes).forM
      (Course.pass s.scene.labeling.labels s.scene.labeling.plan order) (s.opening g) =
      s.course g order := by
    rw [Course.forM_pass, course, Plan.schedule_eq_rounds]
  rw [h.labelsThrough]
  simp only [outcome, Course.labelsThrough, bind_apply, course]
  cases h.worked
  case failed hc hv => simp only [hc, hv]
  case done hc _ _ hv => simp only [hc, hv, get_apply, pure_apply]

-- Only an episode that is accepted, in a labeling that is not finished, gets any labels.
theorem accepted_of_labelsThrough (sound : s.scene.labeling.Sound)
    (h : (outcome (labelsThrough place is) s).1 = .ok pred) : ∃ g order, s.Accepted place g order := by
  cases Scene.setUp (s := s.forgotten.scene) sound (s.forgotten.episode place)
  case refused hs => cases (labelsThrough_refused (setup_error hs)).symm.trans h
  case accepted g order _ _ hg ho _ hs =>
    rw [labelsThrough_of_setup (setup_ok hs)] at h
    cases hk : s.scene.labeling.confusion
    case none =>
      have finished : s.forgotten.scene.labeling.confusion = none := hk
      simp [Scene.labelsThrough, Scene.reset, Scene.currentFrame, Scene.currentConfusion, outcome,
        Scene.noted, Scene.withFrame, Scene.withPrior, finished] at h
    case some => exact ⟨g, order, sound, by simp [hk], hg, ho⟩

-- Another session for the same apprentice that works on the same episode. It may make any number of
-- passes.
structure Peer (s s' : Session Apprentice) (place place' : Option Nat) : Prop where
  reached    : ∃ s₀, Opened s₀ ∧ s₀.Steps s'
  unfinished : s'.scene.labeling.confusion.isSome
  labels     : s'.scene.labeling.labels = s.scene.labeling.labels
  structured : s'.scene.labeling.plan.useStructure = s.scene.labeling.plan.useStructure
  single     : s'.scene.labeling.plan.separateLearners = false
  like       : s.scene.host.mind.Like s'.scene.host.mind
  episode    : s'.episode place' = s.episode place

namespace Peer

variable (h : s.Peer s' place place')
include h

theorem accepted (accepted : s.Accepted place g order) : s'.Accepted place' g order := by
  have ⟨_, opened, steps⟩ := h.reached
  have ⟨_, _, started⟩ := opened.started
  exact {
    sound      := steps.sound started.sound
    unfinished := h.unfinished
    graph      := by rw [h.labels, h.episode, accepted.graph]
    visit      := accepted.visit }

theorem twin (accepted : s.Accepted place g order) (attuned : s.Attuned)
    (testing : s.scene.host.mind.training = false) :
    Course.Twin s.scene.labeling.labels (s.opening g) (s'.opening g) := by
  have ⟨_, opened, steps⟩ := h.reached
  have accepted' := h.accepted accepted
  have space : s'.scene.labeling.augmenter.space = s.scene.labeling.augmenter.space := by
    rw [← (steps.attuned opened : s'.scene.host.mind.policy.space = _),
      ← (attuned : s.scene.host.mind.policy.space = _), h.like.policy]
  exact {
    ready      := accepted.ready testing
    ready'     := h.labels ▸ accepted'.ready (h.like.training.trans testing)
    graph      := rfl
    space      := space
    structured := accepted'.sound.structured.trans (h.structured.trans accepted.sound.structured.symm)
    pred       := by simp only [opening, Labeling.undecided, h.labels]
    memory     := fun _ => rfl
    like       := { h.like with } }

end Peer

-- What follows from a pass that leaves all labels as they are.
structure Fixed (s : Session Apprentice) (place : Option Nat) (p : Nat) (pred : Array Int) : Prop where
  passes   : ∀ is, (outcome (labelsThrough place (List.range (p + 1) ++ is)) s).1 = .ok pred
  labels   : ∀ s' place', s.Peer s' place place' → p < s'.scene.labeling.plan.passes →
    (s'.verdict place').labels = .ok pred
  verdicts : ∀ s₁ s₂ q₁ q₂, s.Peer s₁ place q₁ → s.Peer s₂ place q₂ →
    p < s₁.scene.labeling.plan.passes → p < s₂.scene.labeling.plan.passes →
    s₁.verdict q₁ = s₂.verdict q₂

theorem Accepted.mem_range (h : s.Accepted place g order) {key : Nat × Nat}
    (hk : key ∈ Sweep.rounds order is) : key.2 < g.nodes.size :=
  List.mem_range.mp (h.order_perm.mem_iff.mp (Sweep.mem_rounds.mp hk).right)

theorem Accepted.of_schedule (h : s.Accepted place g order) :
    ∀ key ∈ s.scene.labeling.plan.schedule order,
      key.1 < s.scene.labeling.plan.passes ∧ key.2 < g.nodes.size := fun _ hk =>
  have ⟨pass, node⟩ := Plan.mem_schedule.mp hk
  ⟨pass, List.mem_range.mp (h.order_perm.mem_iff.mp node)⟩

-- The labels of a course that has come through more passes than that are those of its peers.
theorem Peer.verdict_eq {c : Course Apprentice} (h : s.Peer s' place place')
    (accepted : s.Accepted place g order) (attuned : s.Attuned)
    (testing : s.scene.host.mind.training = false)
    (single : s.scene.labeling.plan.separateLearners = false)
    (hc : (List.range s'.scene.labeling.plan.passes).forM
      (Course.pass s.scene.labeling.labels s.scene.labeling.plan order) (s.opening g) = .ok ⟨⟩ c) :
    ∃ k : Confusion, k.side = s.scene.labeling.labels + 1 ∧
      (∀ t p, k.count t p = Scene.tallied (g.trueLabels.zip c.pred.toList) t p) ∧
      s'.verdict place' = ⟨.ok (some k.loss), .ok c.pred, some k⟩ := by
  rw [Course.forM_pass] at hc
  have learner (i : Nat) :
      s'.scene.labeling.plan.learnerFor i = s.scene.labeling.plan.learnerFor i := by
    rw [Course.learnerFor_of_single single, Course.learnerFor_of_single h.single]
  have ⟨x, hx, twin⟩ := (h.twin accepted attuned testing).follow (fun _ => accepted.mem_range) learner hc
  have course : s'.course g order = .ok ⟨⟩ x := by
    rw [Session.course, h.labels, Plan.schedule_eq_rounds]
    exact hx
  cases (h.accepted accepted).worked
  case failed hw _ => cases hw.symm.trans course
  case done hw side counts hv =>
    cases hw.symm.trans course
    rw [twin.pred] at counts hv
    exact ⟨_, h.labels ▸ side, counts, hv⟩

-- After a pass that has left all labels as they are, further passes do so as well.
theorem Accepted.passes_fixed {p : Nat} {c c' : Course Apprentice} (h : s.Accepted place g order)
    (testing : s.scene.host.mind.training = false)
    (single : s.scene.labeling.plan.separateLearners = false)
    (before : (List.range p).forM (Course.pass s.scene.labeling.labels s.scene.labeling.plan order)
      (s.opening g) = .ok ⟨⟩ c)
    (after : (List.range (p + 1)).forM (Course.pass s.scene.labeling.labels s.scene.labeling.plan order)
      (s.opening g) = .ok ⟨⟩ c')
    (same : c'.pred = c.pred) (is : List Nat) : ∃ c'', (List.range (p + 1) ++ is).forM
      (Course.pass s.scene.labeling.labels s.scene.labeling.plan order) (s.opening g) = .ok ⟨⟩ c'' ∧
      c''.pred = c.pred := by
  have opening := h.ready testing
  have pass : Course.pass s.scene.labeling.labels s.scene.labeling.plan order p c = .ok ⟨⟩ c' := by
    rw [List.range_succ] at after
    have ⟨_, hc, hl⟩ := forM_append_eq_ok.mp after
    cases hc.symm.trans before
    exact forM_singleton_eq_ok.mp hl
  rw [Course.forM_pass] at before
  have ready := opening.follow before
  have remembers := opening.remembers (fun _ => h.mem_range) (s.remembers_opening g) before
  have perm : order.Perm (List.range c.bench.graph.nodes.size) := opening.size before ▸ h.order_perm
  have ⟨c'', hc'', twin⟩ := Course.fixed_point single ready perm remembers pass same is
  exact ⟨c'', forM_append_eq_ok.mpr ⟨c', after, hc''⟩, twin.pred⟩

theorem fixed_of_unchanged {p : Nat} (opened : s₀.Opened) (steps : s₀.Steps s)
    (testing : s.scene.host.mind.training = false)
    (single : s.scene.labeling.plan.separateLearners = false)
    (before : (outcome (labelsThrough place (List.range p)) s).1 = .ok pred)
    (after : (outcome (labelsThrough place (List.range (p + 1))) s).1 = .ok pred) :
    s.Fixed place p pred := by
  have ⟨_, _, started⟩ := opened.started
  have ⟨g, order, accepted⟩ := accepted_of_labelsThrough (steps.sound started.sound) before
  rw [accepted.labelsThrough, Course.labelsThrough_ok] at before after
  have ⟨c, hc, hp⟩ := before
  have ⟨c', hc', hp'⟩ := after
  have passes := accepted.passes_fixed testing single hc hc' (hp'.trans hp.symm)
  rw [hp] at passes
  have verdict {s' : Session Apprentice} {place' : Option Nat} (peer : s.Peer s' place place')
      (lt : p < s'.scene.labeling.plan.passes) :
      ∃ k : Confusion, k.side = s.scene.labeling.labels + 1 ∧
        (∀ t p, k.count t p = Scene.tallied (g.trueLabels.zip pred.toList) t p) ∧
        s'.verdict place' = ⟨.ok (some k.loss), .ok pred, some k⟩ := by
    have ⟨r, hr⟩ := Nat.exists_eq_add_of_le lt
    have ⟨c'', hc'', hp''⟩ := passes ((List.range r).map (p + 1 + ·))
    rw [← List.range_add, ← hr] at hc''
    exact hp'' ▸ peer.verdict_eq accepted (steps.attuned opened) testing single hc''
  constructor
  case passes =>
    exact fun is => (accepted.labelsThrough _).trans (Course.labelsThrough_ok.mpr (passes is))
  case labels =>
    intro s' place' peer lt
    have ⟨_, _, _, hv⟩ := verdict peer lt
    rw [hv]
  case verdicts =>
    intro s₁ s₂ q₁ q₂ peer₁ peer₂ lt₁ lt₂
    have ⟨k₁, side₁, counts₁, hv₁⟩ := verdict peer₁ lt₁
    have ⟨k₂, side₂, counts₂, hv₂⟩ := verdict peer₂ lt₂
    have same : k₁ = k₂ := Confusion.eq_of_count (side₁.trans side₂.symm) fun t p => by
      rw [counts₁, counts₂]
    rw [hv₁, hv₂, same]

-- With a single label there is nothing left to change after the first pass.
theorem Accepted.labelsThrough_single (h : s.Accepted place g order)
    (testing : s.scene.host.mind.training = false) (single : s.scene.labeling.labels = 1)
    (capable : (s.opening g).Capable 1 s.scene.labeling.plan) (first : 0 ∈ is)
    (hi : ∀ i ∈ is, i < s.scene.labeling.plan.passes) :
    (outcome (Session.labelsThrough place is) s).1 = .ok (Array.replicate g.nodes.size 1) := by
  have ready := h.ready testing
  have pred : (s.opening g).pred = Array.replicate g.nodes.size (((1 : Nat) : Int) + 1) := by
    simp only [opening, Labeling.undecided, single]
  rw [h.labelsThrough, Course.labelsThrough_ok, single]
  rw [single] at ready
  obtain ⟨c, hc⟩ : ∃ c, Course.follow 1 s.scene.labeling.plan (Sweep.rounds order is) (s.opening g) =
      .ok ⟨⟩ c :=
    Course.follow_of_capable ready capable fun _ hk =>
      ⟨hi _ (Sweep.mem_rounds.mp hk).left, h.mem_range hk⟩
  refine ⟨c, by rw [Course.forM_pass]; exact hc, ?_⟩
  obtain ⟨chain, keys⟩ := Course.completes ready.idle hc
  have visited : ∀ n < g.nodes.size, ∃ d ∈ Course.decisions 1 s.scene.labeling.plan
      (Sweep.rounds order is) (s.opening g), d.node = n := by
    intro n hn
    have hk : (0, n) ∈ Sweep.rounds order is :=
      Sweep.mem_rounds.mpr ⟨first, h.order_perm.mem_iff.mpr (List.mem_range.mpr hn)⟩
    obtain ⟨d, hd, he⟩ := List.mem_map.mp (keys ▸ hk)
    exact ⟨d, hd, (Prod.mk.inj he).right⟩
  refine Array.ext (by simpa using chain.size_pred pred) fun n hn _ => ?_
  have := chain.pred_le pred visited (Array.getElem_mem hn)
  rw [Array.getElem_replicate]
  omega

-- A session with one label only, for an apprentice that is being tested.
def sampleSingle (plan : Plan) : Session Apprentice where
  scene := {
    labeling := {
      labels     := 1
      labels_pos := Nat.one_pos
      plan       := plan
      name       := "graph"
      augmenter  := {
        labels       := 1
        space        := .standard
        useStructure := plan.useStructure
        scratch      := { cells := #[0, 0] } }
      confusion  := some (.ofSide 2)
      prior      := { labels := 1, counts := #[1, 1], total := 2 } }
    host := { mind := {
      policy   := { labels := 1, space := .standard, rate := 1.0, learners := #[.zero] }
      training := false } }
    clock := { date := ⟨2001, 2, 3, 4, 5, 6⟩ } }
  shelf := #[sampleEpisode 1 0]

def sampleGraph (label label' : Int) : Hypergraph :=
  Episode.graphOf ⟨#[sampleNode label, sampleNode label'], #[sampleEdge]⟩

theorem movable_sampleGraph (label label' : Int) :
    Augmenter.Movable .standard (sampleGraph label label').edges := by
  intro r hr f hf
  obtain rfl : r = sampleEdge := by simpa [sampleGraph, Episode.graphOf] using hr
  obtain rfl : f = ⟨1.0, FeatureSpace.standard.place 5⟩ := by
    simpa [Record.visits, sampleEdge, Record.extend, Record.featuresOf, Keyed.put, Keyed.get?] using hf
  have aligned : FeatureSpace.standard.Aligned (FeatureSpace.standard.place 5) := by decide
  exact aligned

section Sample

variable {plan : Plan} (single : plan.separateLearners = false)
include single

theorem opened_sampleSingle : (sampleSingle plan).Opened where
  start   := ⟨1, some plan, "graph", (sampleSingle plan).scene.host, by
    simp [Labeling.start, single]
    rfl⟩
  current := rfl

theorem accepted_sampleSingle :
    ∃ order, (sampleSingle plan).Accepted (some 0) (sampleGraph 1 0) order :=
  have ⟨_, _, started⟩ := (opened_sampleSingle single).started
  accepted_of_graph started.sound rfl rfl

theorem capable_sampleSingle : ((sampleSingle plan).opening (sampleGraph 1 0)).Capable 1 plan where
  movable := movable_sampleGraph 1 0
  known   := fun i _ => by rw [Course.learnerFor_of_single single]; rfl
  pos     := Nat.le_refl 1
  le      := Nat.le_refl 1

theorem labelsThrough_sampleSingle (first : 0 ∈ is) (hi : ∀ i ∈ is, i < plan.passes) :
    (outcome (labelsThrough (some 0) is) (sampleSingle plan)).1 = .ok #[1, 1] :=
  have ⟨_, accepted⟩ := accepted_sampleSingle single
  accepted.labelsThrough_single rfl rfl (capable_sampleSingle single) first hi

omit single in
theorem peer_sampleSingle {plan' : Plan} (single' : plan'.separateLearners = false)
    (structured : plan'.useStructure = plan.useStructure) :
    (sampleSingle plan).Peer (sampleSingle plan') (some 0) (some 0) where
  reached    := ⟨_, opened_sampleSingle single', .refl⟩
  unfinished := rfl
  labels     := rfl
  structured := structured
  single     := single'
  like       := .refl _
  episode    := rfl

end Sample

-- Whether there are two passes or five, one that changes nothing is the last that could.
theorem fixed_of_unchanged_sample :
    let s := sampleSingle .standard
    let s' := sampleSingle { passes := 5, useStructure := true, separateLearners := false }
    s.Fixed (some 0) 1 #[1, 1] ∧ s.verdict (some 0) = s'.verdict (some 0) := by
  intro s s'
  have fixed : s.Fixed (some 0) 1 #[1, 1] :=
    fixed_of_unchanged (opened_sampleSingle rfl) .refl rfl rfl
      (labelsThrough_sampleSingle rfl (by decide) (by decide))
      (labelsThrough_sampleSingle rfl (by decide) (by decide))
  exact ⟨fixed, fixed.verdicts s s' (some 0) (some 0) (peer_sampleSingle rfl rfl)
    (peer_sampleSingle rfl rfl) (by decide) (by decide)⟩

end Session
end CollectiveLabeling
