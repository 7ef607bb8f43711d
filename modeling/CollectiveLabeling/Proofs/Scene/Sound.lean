import CollectiveLabeling.Proofs.Confusion
import CollectiveLabeling.Proofs.Course.Preserved
import CollectiveLabeling.Proofs.Scene.Setup

namespace CollectiveLabeling

open Step

structure Frame.Sound (f : Frame) (labels : Nat) : Prop where
  graph : f.graph.Sound labels
  visit : Sweep.order f.graph = .ok f.order

-- What holds of a labeling between any two steps of its life. Its tables are gone once it is
-- finished.
structure Labeling.Sound (l : Labeling) : Prop where
  idle       : l.augmenter.active = none
  structured : l.augmenter.useStructure = l.plan.useStructure
  prior      : l.prior.Counts l.labels
  side       : ∀ k, l.confusion = some k → k.side = l.labels + 1
  scratch    : l.confusion.isSome → l.augmenter.scratch.cells.size = l.labels + 1
  frame      : ∀ f, l.frame = some f → f.Sound l.labels

-- The state in which a labeling starts out.
structure Labeling.Started {σ : Type} [Decider σ] (l : Labeling) (plan : Plan) (h h' : Host σ) :
    Prop where
  sound      : l.Sound
  plan       : l.plan = plan
  space      : l.augmenter.space = (Decider.space h.mind).getD .standard
  prior      : Prior.ofLabels l.labels = .ok l.prior
  host       : h' = if l.plan.separateLearners then
    { h with mind := Decider.resize l.plan.passes h.mind } else h
  unset      : l.frame = none
  unfinished : l.confusion.isSome

namespace Labeling

variable {σ : Type} [Decider σ]

theorem started_of_start {actions : Int} {plan : Option Plan} {name : String} {host host' : Host σ}
    {l : Labeling} (h : Labeling.start actions plan name host = .ok l host') :
    l.Started (plan.getD .standard) host host' := by
  by_cases pos : 1 ≤ actions
  case neg => simp [start, pos] at h
  case pos =>
    have bound : ¬ actions < -1 := by omega
    have size : (actions + 1).toNat = actions.toNat + 1 := by omega
    simp only [start, pos, dif_pos, Augmenter.ofLabels, Confusion.ofLabels, Prior.ofLabels, bound,
      if_false, lift_ok, bind_apply, get_apply] at h
    split at h
    all_goals
      rename_i separate
      cases h
      exact {
        sound := {
          idle       := rfl
          structured := rfl
          prior      := by simpa [Prior.Counts] using size
          side       := by simpa [Confusion.ofSide] using size
          scratch    := by simpa using size
          frame      := by simp }
        plan       := rfl
        space      := rfl
        prior      := by
          have labels : (actions.toNat : Int) = actions := Int.toNat_of_nonneg (by omega)
          simp only [Prior.ofLabels, labels, bound, if_false]
        host       := by simp [separate]
        unset      := rfl
        unfinished := rfl }

end Labeling

namespace Frame.Sound

variable {f : Frame} {labels : Nat}

theorem order_perm (h : f.Sound labels) : f.order.Perm (List.range f.graph.nodes.size) := by
  have ⟨order, ho, perm⟩ := Sweep.order_perm h.graph
  cases ho.symm.trans h.visit
  exact perm

-- A frame stays sound through decisions.
theorem resume (h : f.Sound labels) {a : Augmenter} {w : Workbench}
    (hs : (Workbench.mk f.graph a).Same w) (pred : Array Int) :
    Frame.Sound { f with graph := w.graph, pred } labels where
  graph := h.graph.of_costs hs.costs hs.edges hs.adjacency
  visit := by
    have size : w.graph.nodes.size = f.graph.nodes.size := by
      simpa using congrArg Array.size hs.costs
    exact (Sweep.order_congr size hs.edges hs.adjacency).trans h.visit

end Frame.Sound

namespace Scene

variable {σ : Type} [Decider σ] {s : Scene σ} {frame : Frame} {k : Confusion}

-- The decisions that a run of an episode takes.
def decisions (s : Scene σ) (f : Frame) : List (Decision σ) :=
  Course.decisions s.labeling.labels s.labeling.plan (s.labeling.plan.schedule f.order) (s.opening f)

-- How a run of an episode ends. Only a decision can make it fail, its scoring never does.
inductive Ran (s : Scene σ) (frame : Frame) (k : Confusion) : Prop
  | failed {e : Fault} {c : Course σ} {clock : Clock} {entries : Array Entry} :
      Course.follow s.labeling.labels s.labeling.plan (s.labeling.plan.schedule frame.order)
        (s.opening frame) = .error e c →
      (s.opening frame).bench.Same c.bench →
      run s = .error e (((s.withConfusion k.clear).resume frame c).noted clock entries) →
      Ran s frame k
  | done {c : Course σ} {k' : Confusion} {clock : Clock} {entries : Array Entry} :
      Course.follow s.labeling.labels s.labeling.plan (s.labeling.plan.schedule frame.order)
        (s.opening frame) = .ok ⟨⟩ c →
      (s.opening frame).bench.Same c.bench →
      k'.side = s.labeling.labels + 1 →
      (∀ t p, k'.count t p = tallied (frame.graph.trueLabels.zip c.pred.toList) t p) →
      run s = .ok c.pred
        ((((s.withConfusion k').resume frame c).withReport k' c.pred).noted clock entries) →
      Ran s frame k

section Run

variable (h : s.labeling.Sound) (hf : s.labeling.frame = some frame)
  (hk : s.labeling.confusion = some k)
include h hf hk

theorem run_scored {c : Course σ}
    (hw : Course.follow s.labeling.labels s.labeling.plan (s.labeling.plan.schedule frame.order)
      (s.opening frame) = .ok ⟨⟩ c) :
    (s.opening frame).bench.Same c.bench ∧ ∃ k' clock entries, k'.side = s.labeling.labels + 1 ∧
      (∀ t p, k'.count t p = tallied (frame.graph.trueLabels.zip c.pred.toList) t p) ∧
      run s = .ok c.pred
        ((((s.withConfusion k').resume frame c).withReport k' c.pred).noted clock entries) := by
  have idle : (s.opening frame).Idle := h.idle
  have sound := h.frame frame hf
  have ⟨_, same⟩ := (Course.keeps_follow _ _ _ _).of_ok ⟨idle, .refl _⟩ hw
  have ⟨hc, hd⟩ := Course.completes idle hw
  have range : ∀ x ∈ c.pred, 1 ≤ x ∧ x ≤ s.labeling.labels := fun x hx =>
    hc.pred_le_of_schedule rfl sound.order_perm hd hx
  have ⟨k', hs, side, count⟩ := countFrame_ok ⟨c.bench.graph, frame.order, c.pred⟩
    (h.side k hk) (sound.resume same c.pred).graph.label range
  have ⟨clock, entries, hr⟩ := run_ok hf hk hw hs
  refine ⟨same, k', clock, entries, side, fun t p => ?_, hr⟩
  rw [count, Hypergraph.trueLabels_eq same.costs]
  rfl

theorem ran : Ran s frame k := by
  cases hw : Course.follow s.labeling.labels s.labeling.plan (s.labeling.plan.schedule frame.order)
      (s.opening frame)
  case error e c =>
    have ⟨_, same⟩ := (Course.keeps_follow _ _ _ _).of_error ⟨h.idle, .refl _⟩ hw
    have ⟨_, _, hr⟩ := run_error hf hk hw
    exact .failed hw same hr
  case ok u c =>
    have ⟨same, _, _, _, side, counts, hr⟩ := run_scored h hf hk hw
    exact .done hw same side counts hr

end Run

-- How a run ends in any case. It is refused if there is no episode, or no table to count in, and then
-- nothing has changed.
inductive Ended (s : Scene σ) : Prop
  | refused {e : Fault} : s.labeling.frame = none ∨ s.labeling.confusion = none →
      run s = .error e s → Ended s
  | ran {frame : Frame} {k : Confusion} : s.labeling.frame = some frame →
      s.labeling.confusion = some k → Ran s frame k → Ended s

theorem ended (h : s.labeling.Sound) : s.Ended := by
  cases hf : s.labeling.frame
  case none => exact .refused (.inl hf) (run_unset hf)
  case some frame =>
    cases hk : s.labeling.confusion
    case none => exact .refused (.inr hk) (run_finished hf hk)
    case some k => exact .ran hf hk (ran h hf hk)

end Scene
end CollectiveLabeling
