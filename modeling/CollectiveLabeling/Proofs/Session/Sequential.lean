import CollectiveLabeling.Proofs.Course.Sequential
import CollectiveLabeling.Proofs.Session.Intact

namespace CollectiveLabeling

open Step

namespace Session

variable {σ : Type} [Decider σ] {s t : Session σ} {f : Frame}

-- A run that has taken all its decisions and has been scored.
structure Completed (labels : Nat) (plan : Plan) (f : Frame) (ds : List (Decision σ))
    (pred : Array Int) (k : Confusion) : Prop where
  visits : ds.map Decision.key = plan.schedule f.order
  size   : pred.size = f.graph.nodes.size
  last   : ∀ n < pred.size, ∃ label, Decision.latest plan ds n = some label ∧ pred[n]? = some label
  range  : ∀ x ∈ pred, 1 ≤ x ∧ x ≤ labels
  side   : k.side = labels + 1
  counts : ∀ p q, k.count p q = Scene.tallied (f.graph.trueLabels.zip pred.toList) p q

-- A run goes through the nodes in the order of the visit, forwards and backwards in turn, and decides
-- each from the labels that are there at that moment. It returns the label that each node got last,
-- and only a decision can make it fail.
structure Inference (s : Session σ) (f : Frame) (labels : Nat) (plan : Plan)
    (ds : List (Decision σ)) : Prop where
  visit      : Sweep.order f.graph = .ok f.order
  order      : f.order.Perm (List.range f.graph.nodes.size)
  length     : (plan.schedule f.order).length = plan.passes * f.graph.nodes.size
  sequential : Course.Sequential labels plan f.order f.graph.nodes.size ds
  -- A host that keeps a list of the queries it gets has got those of the decisions.
  asked      : ∀ asked : σ → List Query,
    (∀ q mind, asked (outcome (Decider.decide q) mind).2 = asked mind ++ [q]) →
    asked (outcome run s).2.scene.host.mind = asked s.scene.host.mind ++
      ds.flatMap fun d => (d.question plan).toOption.toList
  completed  : ∀ pred t, run s = .ok pred t →
    ∃ k, t.scene.labeling.confusion = some k ∧ Completed labels plan f ds pred k
  stopped    : ∀ e t, run s = .error e t → ∃ earlier d, ds = earlier ++ [d] ∧
    (∀ d' ∈ earlier, d'.Succeeds labels plan) ∧ d.Fails labels plan e

section Run

variable {k : Confusion} (sound : t.scene.labeling.Sound) (hf : t.scene.labeling.frame = some f)
  (hk : t.scene.labeling.confusion = some k)
include sound hf hk

theorem asked_run {asked : σ → List Query}
    (hq : ∀ q mind, asked (outcome (Decider.decide q) mind).2 = asked mind ++ [q]) :
    asked (outcome run t).2.scene.host.mind = asked t.scene.host.mind ++
      (t.scene.decisions f).flatMap fun d => (d.question t.scene.labeling.plan).toOption.toList := by
  have idle : (t.scene.opening f).Idle := sound.idle
  have ha := Course.asked_follow hq t.scene.labeling.labels t.scene.labeling.plan
    (t.scene.labeling.plan.schedule f.order) idle
  rw [outcome_run, shelve_scene]
  cases Scene.ran sound hf hk
  case failed hw _ hr =>
    simp only [outcome, hw, hr] at ha ⊢
    exact ha
  case done hw _ _ _ hr =>
    simp only [outcome, hw, hr] at ha ⊢
    exact ha

theorem completed_run {pred : Array Int} {u : Session σ} (h : run t = .ok pred u) :
    ∃ k', u.scene.labeling.confusion = some k' ∧
      Completed t.scene.labeling.labels t.scene.labeling.plan f (t.scene.decisions f) pred k' := by
  have idle : (t.scene.opening f).Idle := sound.idle
  have order_perm := (sound.frame f hf).order_perm
  rw [run_apply] at h
  cases Scene.ran sound hf hk
  case failed hr =>
    rw [hr] at h
    cases h
  case done c k' _ _ hw _ side counts hr =>
    rw [hr] at h
    cases h
    obtain ⟨chain, keys⟩ := Course.completes idle hw
    have size : c.pred.size = f.graph.nodes.size := chain.size_pred rfl
    refine ⟨k', by rw [shelve_scene]; rfl, ?_⟩
    exact {
      visits := keys
      size   := size
      last   := fun n hn => chain.getElem?_pred_of_schedule rfl order_perm keys (size ▸ hn)
      range  := fun x hx => chain.pred_le_of_schedule rfl order_perm keys hx
      side   := side
      counts := counts }

theorem stopped_run {e : Fault} {u : Session σ} (h : run t = .error e u) :
    ∃ earlier d, t.scene.decisions f = earlier ++ [d] ∧
      (∀ d' ∈ earlier, d'.Succeeds t.scene.labeling.labels t.scene.labeling.plan) ∧
      d.Fails t.scene.labeling.labels t.scene.labeling.plan e := by
  have idle : (t.scene.opening f).Idle := sound.idle
  rw [run_apply] at h
  cases Scene.ran sound hf hk
  case failed hw _ hr =>
    rw [hr] at h
    cases h
    exact Course.stops idle hw
  case done hr =>
    rw [hr] at h
    cases h

end Run

theorem inference (sound : t.scene.labeling.Sound) (set : t.scene.labeling.frame = some f)
    (unfinished : t.scene.labeling.confusion.isSome) :
    t.Inference f t.scene.labeling.labels t.scene.labeling.plan (t.scene.decisions f) := by
  obtain ⟨k, hk⟩ := Option.isSome_iff_exists.mp unfinished
  have frame := sound.frame f set
  exact {
    visit      := frame.visit
    order      := frame.order_perm
    length     := by
      rw [Plan.length_schedule, frame.order_perm.length_eq, List.length_range]
    sequential := Course.sequential rfl frame.order_perm sound.idle (sound.scratch unfinished)
    asked      := fun _ hq => asked_run sound set hk hq
    completed  := fun _ _ h => completed_run sound set hk h
    stopped    := fun _ _ h => stopped_run sound set hk h }

theorem run_sequential (opened : s.Opened) (steps : s.Steps t)
    (set : t.scene.labeling.frame = some f) (unfinished : t.scene.labeling.confusion.isSome) :
    t.Inference f t.scene.labeling.labels t.scene.labeling.plan (t.scene.decisions f) := by
  obtain ⟨_, _, started⟩ := opened.started
  exact inference (steps.sound started.sound) set unfinished

-- A host that always answers with the first label.
theorem run_sequential_sample :
    let host : Host Scripted :=
      { mind := { space := none, wantsInput := true, script := ⟨.always 1, none⟩ } }
    let t := (outcome (move (.setup (some 0))) (sample host)).2
    ∃ f, t.scene.labeling.frame = some f ∧
      t.Inference f t.scene.labeling.labels t.scene.labeling.plan (t.scene.decisions f) := by
  intro host t
  have opened := opened_sample host
  have ⟨_, _, started⟩ := opened.started
  have ⟨t', f, hs, hf, _, hk⟩ := setup_of_toGraph started.sound (some 0) rfl
  have ht : t = t' := (outcome_move ..).trans (congrArg Prod.snd (outcome_ok.mpr hs))
  rw [← ht] at hf hk
  exact ⟨f, hf, run_sequential opened (.move (.setup (some 0)) .refl) hf (hk ▸ rfl)⟩

end Session
end CollectiveLabeling
