import CollectiveLabeling.Host.Scripted
import CollectiveLabeling.Proofs.Session

namespace CollectiveLabeling.Session

open Step

variable {σ : Type} {s t : Session σ} {shelf : Array (List Record)}

-- All records on a shelf have been read from a source, in whatever space of features.
def Sourced (shelf : Array (List Record)) : Prop :=
  ∀ records ∈ shelf, ∀ r ∈ records, ∃ space source, Record.ofSource space source = .ok r

-- No record has changed: not on the shelf, and not in the graph of the episode that is set up.
structure Intact (shelf : Array (List Record)) (s : Session σ) : Prop where
  shelf   : s.shelf = shelf
  records : ∀ f, s.scene.labeling.frame = some f → f.graph.records = s.episode s.current

theorem episode_filed (h : Sourced s.shelf) {place : Option Nat} {r : Record} (hr : r ∈ s.episode place) :
    r.Filed := by
  unfold episode at hr
  cases hp : place.bind (s.shelf[·]?) <;> simp only [hp, Option.getD] at hr
  case none => simp at hr
  case some records =>
    have ⟨p, _, hs⟩ := Option.bind_eq_some_iff.mp hp
    have ⟨_, _, ho⟩ := h records (Array.mem_of_getElem? hs) r hr
    exact Record.filed_of_ofSource ho

-- Putting back what has not changed changes nothing.
theorem shelve_eq_self
    (h : ∀ f, s.scene.labeling.frame = some f → f.graph.records = s.episode s.current) :
    s.shelve = s := by
  simp only [shelve]
  split
  case h_2 => rfl
  case h_1 place f hc hf =>
    have shelf : s.shelf.setIfInBounds place f.graph.records = s.shelf := by
      refine Array.ext (by simp) fun i _ hi => ?_
      rw [Array.getElem_setIfInBounds hi]
      split
      case isFalse => rfl
      case isTrue he => subst he; simp [h f hf, hc, episode, hi]
    rw [shelf]

namespace Intact

variable [Decider σ] (h : s.Intact shelf) (sound : s.scene.labeling.Sound)
include h sound

theorem setup (place : Option Nat) : (outcome (Session.setup place) s).2.Intact shelf := by
  cases Scene.setUp sound (s.episode place)
  case refused hs => simpa [outcome, setup_apply, hs] using ⟨h.shelf, h.records⟩
  case accepted hg _ _ hs =>
    simp only [outcome, setup_apply, hs]
    refine ⟨h.shelf, fun f he => ?_⟩
    cases he
    exact Episode.records_toGraph hg

theorem run (sourced : Sourced shelf) : (outcome Session.run s).2.Intact shelf := by
  have records : ∀ f, (outcome Scene.run s.scene).2.labeling.frame = some f →
      f.graph.records = s.episode s.current := by
    cases Scene.ended sound
    case refused hr => simpa [outcome, hr] using h.records
    case ran frame k hf hk ran =>
      have filed : ∀ r ∈ frame.graph.nodes, r.Filed := by
        intro r hr
        have hm : r ∈ s.episode s.current := h.records frame hf ▸ Hypergraph.mem_records.mpr (.inl hr)
        exact episode_filed (h.shelf ▸ sourced) hm
      have graph {c : Course σ} (same : (s.scene.opening frame).bench.Same c.bench) :
          c.bench.graph.records = s.episode s.current :=
        congrArg Hypergraph.records (same.graph filed) |>.trans <| h.records frame hf
      cases ran
      case failed same hr =>
        simp only [outcome, hr]
        exact fun f he => by cases he; exact graph same
      case done same _ _ hr =>
        simp only [outcome, hr]
        exact fun f he => by cases he; exact graph same
  rw [outcome_run, shelve_eq_self records]
  exact ⟨h.shelf, records⟩

theorem move (sourced : Sourced shelf) (m : Move) :
    (outcome (Session.move m) s).2.Intact shelf := by
  rw [outcome_move]
  cases m
  case setup place => exact h.setup sound place
  case run => exact h.run sound sourced
  case takedown => exact ⟨h.shelf, fun _ he => nomatch he⟩
  case finish => exact ⟨h.shelf, h.records⟩

end Intact

variable [Decider σ]

theorem Opened.intact (h : s.Opened) : s.Intact s.shelf where
  shelf   := rfl
  records := fun f hf => by
    have ⟨_, _, started⟩ := h.started
    cases started.unset.symm.trans hf

theorem Steps.intact (h : s.Steps t) (opened : s.Opened) (sourced : Sourced s.shelf) :
    t.Intact s.shelf := by
  have ⟨_, _, started⟩ := opened.started
  induction h
  case refl => exact opened.intact
  case move m h hi => exact hi.move (h.sound started.sound) sourced m
  case surroundings hi => exact ⟨hi.shelf, hi.records⟩

-- A small session to try things out: two labels, the standard plan, and two episodes of two nodes
-- that are joined by an edge. The nodes come with features in the neighbor namespace, and the episodes
-- only differ in the labels of their nodes.
section Sample

def sampleNode (label : Int) : Record :=
  Record.extend { costs := [(label, 1.0)] } neighborNamespace [⟨1.0, FeatureSpace.standard.place 3⟩]

def sampleEdge : Record :=
  Record.extend { costs := [(1, 1.0), (2, 1.0)] } (String.singleton 'a')
    [⟨1.0, FeatureSpace.standard.place 5⟩]

def sampleEpisode (label label' : Int) : List Record :=
  [sampleNode label, sampleNode label', sampleEdge]

def sampleShelf : Array (List Record) :=
  #[sampleEpisode 1 2, sampleEpisode 2 0]

theorem sourced_sampleEpisode {label label' : Int} {r : Record} (h : r ∈ sampleEpisode label label') :
    ∃ space source, Record.ofSource space source = .ok r := by
  have node (label : Int) : ∃ space source, Record.ofSource space source = .ok (sampleNode label) :=
    ⟨.standard, ⟨[(.value label, .value 1.0)], [(neighborNamespace, [(.value 3, .value 1.0)])]⟩, rfl⟩
  simp only [sampleEpisode, List.mem_cons, List.not_mem_nil, or_false] at h
  obtain rfl | rfl | rfl := h
  case inl => exact node label
  case inr.inl => exact node label'
  case inr.inr =>
    exact ⟨.standard, ⟨[(.value 1, .value 1.0), (.value 2, .value 1.0)],
      [(String.singleton 'a', [(.value 5, .value 1.0)])]⟩, rfl⟩

theorem sourced_sample : Sourced sampleShelf := by
  intro records hr r hm
  have : records = sampleEpisode 1 2 ∨ records = sampleEpisode 2 0 := by simpa [sampleShelf] using hr
  obtain rfl | rfl := this
  all_goals exact sourced_sampleEpisode hm

def sample (host : Host σ) : Session σ where
  scene := {
    labeling := {
      labels     := 2
      labels_pos := Nat.le_succ 1
      plan       := .standard
      name       := "graph"
      augmenter  := {
        labels       := 2
        space        := (Decider.space host.mind).getD .standard
        useStructure := true
        scratch      := { cells := #[0, 0, 0] } }
      confusion  := some (.ofSide 3)
      prior      := { labels := 2, counts := #[1, 1, 1], total := 3 } }
    host
    clock := { date := ⟨2001, 2, 3, 4, 5, 6⟩ } }
  shelf := sampleShelf

theorem opened_sample (host : Host σ) : (sample host).Opened where
  start   := ⟨2, none, "graph", host, rfl⟩
  current := rfl

end Sample

-- Whatever is done in a session and however it ends, all records are as they were, on the shelf and
-- in the graph that is set up, and no augmentation is left active.
theorem records_survive (opened : s.Opened) (sourced : Sourced s.shelf) (steps : s.Steps t) :
    t.shelf = s.shelf ∧
    (∀ f, t.scene.labeling.frame = some f → f.graph.records = s.episode t.current) ∧
    t.scene.labeling.augmenter.active = none := by
  have ⟨_, _, started⟩ := opened.started
  have intact := steps.intact opened sourced
  refine ⟨intact.shelf, fun f hf => ?_, (steps.sound started.sound).idle⟩
  rw [intact.records f hf, episode, episode, intact.shelf]

-- A host that fails at its second query.
theorem records_survive_failure :
    let host : Host Scripted :=
      { mind := { space := none, wantsInput := true, script := ⟨.oracle 1, some 1⟩ } }
    let s := sample host
    let t := (outcome (move .run) (outcome (move (.setup (some 0))) s).2).2
    t.shelf = s.shelf ∧
    (∀ f, t.scene.labeling.frame = some f → f.graph.records = s.episode t.current) ∧
    t.scene.labeling.augmenter.active = none :=
  records_survive (opened_sample _) sourced_sample (.move .run (.move (.setup (some 0)) .refl))

end CollectiveLabeling.Session
