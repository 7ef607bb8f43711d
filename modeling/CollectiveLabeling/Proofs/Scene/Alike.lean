import CollectiveLabeling.Proofs.Course.Alike
import CollectiveLabeling.Proofs.Scene.Kept

namespace CollectiveLabeling

open Step

namespace Confusion

theorem count_of_lt {c : Confusion} {t p : Nat} (ht : t < c.side) (hp : p < c.side) :
    c.count t p = c.cells[t][p] := by
  simp [count, ht, hp]

-- The counts and the size are all there is to a table.
theorem eq_of_count {c c' : Confusion} (hs : c'.side = c.side) (h : ∀ t p, c'.count t p = c.count t p) :
    c' = c := by
  obtain ⟨side, cells⟩ := c
  obtain ⟨side', cells'⟩ := c'
  cases hs
  congr 1
  refine Vector.ext fun t ht => Vector.ext fun p hp => ?_
  have := h t p
  rwa [count_of_lt ht hp, count_of_lt ht hp] at this

end Confusion

namespace Scene

-- Two labelings with the same apprentice, which is being tested.
structure Alike (s s' : Scene Apprentice) : Prop where
  labels     : s'.labeling.labels = s.labeling.labels
  plan       : s'.labeling.plan = s.labeling.plan
  space      : s'.labeling.augmenter.space = s.labeling.augmenter.space
  scratch    : s'.labeling.augmenter.scratch.cells.size = s.labeling.augmenter.scratch.cells.size
  unfinished : s'.labeling.confusion.isSome = s.labeling.confusion.isSome
  sound      : s.labeling.Sound
  sound'     : s'.labeling.Sound
  mind       : s'.host.mind = s.host.mind
  testing    : s.host.mind.training = false

-- Two such labelings, ready to run on episodes that only differ in the true labels.
structure Paired (s s' : Scene Apprentice) (f f' : Frame) : Prop where
  alike  : s.Alike s'
  frame  : s.labeling.frame = some f
  frame' : s'.labeling.frame = some f'
  graph  : f'.graph.bare = f.graph.bare
  order  : f'.order = f.order

variable {s s' : Scene Apprentice} {f f' : Frame}

theorem Alike.refl (h : s.labeling.Sound) (testing : s.host.mind.training = false) : s.Alike s :=
  ⟨rfl, rfl, rfl, rfl, rfl, h, h, rfl, testing⟩

namespace Alike

variable (h : s.Alike s')
include h

theorem opening (hb : f'.graph.bare = f.graph.bare) : (s.opening f).Alike (s'.opening f') where
  bench := {
    graph      := hb
    space      := h.space
    structured := h.sound'.structured.trans <| (congrArg Plan.useStructure h.plan).trans
      h.sound.structured.symm
    scratch    := h.scratch }
  pred := by
    have size : f'.graph.nodes.size = f.graph.nodes.size := by
      simpa [Hypergraph.bare] using congrArg (·.nodes.size) hb
    simp only [Scene.opening, Labeling.undecided, size, h.labels]
  mind := h.mind
  testing := h.testing
  idle := h.sound.idle
  idle' := h.sound'.idle

-- An episode and another that only differs from it in the true labels are set up alike.
theorem setup {rs rs' : List Record} {g g' : Hypergraph}
    (hg : Episode.toGraph (some s.labeling.labels) rs = .ok g)
    (hg' : Episode.toGraph (some s.labeling.labels) rs' = .ok g') (hb : g'.bare = g.bare) :
    ∃ t t' f f', Scene.setup rs s = .ok ⟨⟩ t ∧ Scene.setup rs' s' = .ok ⟨⟩ t' ∧
      Paired t t' f f' ∧ f.graph = g ∧ f'.graph = g' ∧ t.host = s.host ∧ t'.host = s'.host := by
  have hg'' := h.labels.symm ▸ hg'
  cases setUp h.sound rs
  case refused hd _ => cases hg.symm.trans hd
  case accepted order _ _ hg₁ ho kept hs =>
    cases hg.symm.trans hg₁
    cases setUp h.sound' rs'
    case refused hd _ => cases hg''.symm.trans hd
    case accepted hg₂ ho' kept' hs' =>
      cases hg''.symm.trans hg₂
      have size : g'.nodes.size = g.nodes.size := by
        simpa [Hypergraph.bare] using congrArg (·.nodes.size) hb
      have same := Sweep.order_congr size (congrArg (·.edges) hb) (congrArg (·.adjacency) hb)
      cases ho'.symm.trans (same.trans ho)
      refine ⟨_, _, s.labeling.frameOf g order, s'.labeling.frameOf g' order, hs, hs', ?_, rfl, rfl,
        rfl, rfl⟩
      exact {
        alike  := { h with sound := (kept.noted _ _).sound, sound' := (kept'.noted _ _).sound }
        frame  := rfl
        frame' := rfl
        graph  := hb
        order  := rfl }

end Alike

-- What comes of running two labelings that are alike on episodes that are alike.
inductive RunAlike (s s' : Scene Apprentice) (f f' : Frame) : Prop
  | failed {e : Fault} {t t' : Scene Apprentice} :
      run s = .error e t → run s' = .error e t' → t'.host.mind = t.host.mind →
      (s'.host.output = s.host.output → t'.host.output = t.host.output) → RunAlike s s' f f'
  | done {pred : Array Int} {k k' : Confusion} {t t' : Scene Apprentice} :
      run s = .ok pred t → run s' = .ok pred t' → t'.host.mind = t.host.mind →
      (s'.host.output = s.host.output → t'.host.output = t.host.output) →
      t.labeling.confusion = some k → t.host.losses = s.host.losses.push k.loss →
      t'.labeling.confusion = some k' → t'.host.losses = s'.host.losses.push k'.loss →
      (f'.graph.trueLabels = f.graph.trueLabels → k' = k) → RunAlike s s' f f'

namespace Paired

variable (h : Paired s s' f f')
include h

theorem sights : (s'.decisions f').map (Decision.sight s'.labeling.plan) =
    (s.decisions f).map (Decision.sight s.labeling.plan) := by
  simp only [decisions, h.alike.labels, h.alike.plan, h.order]
  exact Course.sights_alike _ (h.alike.opening h.graph)

theorem run : RunAlike s s' f f' := by
  have ⟨h, hf, hf', hb, ho⟩ := h
  have unfinished := h.unfinished
  cases hk : s.labeling.confusion <;> cases hk' : s'.labeling.confusion <;>
    simp only [hk, hk', Option.isSome] at unfinished
  case none.none => exact .failed (run_finished hf hk) (run_finished hf' hk') h.mind id
  case some.some k k' =>
    have together := (Course.alike_follow s.labeling.labels s.labeling.plan
      (s.labeling.plan.schedule f.order)).ends (h.opening hb)
    -- The second labeling follows the same schedule, read off its own plan and order.
    have same : Course.follow (σ := Apprentice) s'.labeling.labels s'.labeling.plan
        (s'.labeling.plan.schedule f'.order) =
        Course.follow s.labeling.labels s.labeling.plan (s.labeling.plan.schedule f.order) := by
      rw [h.labels, h.plan, ho]
    obtain ⟨_, c, c', hw, hw', hc⟩ | ⟨e, c, c', hw, hw', hc⟩ := together
    case inl =>
      have ⟨_, _, _, _, side, counts, hs⟩ := run_scored h.sound hf hk hw
      have ⟨_, _, _, _, side', counts', hs'⟩ := run_scored h.sound' hf' hk' (same ▸ hw')
      rw [hc.pred] at hs' counts'
      refine .done hs hs' hc.mind (congrArg (Option.map _)) rfl rfl rfl rfl fun hl => ?_
      refine Confusion.eq_of_count ?side fun t p => ?count
      case side => rw [side, side', h.labels]
      case count => rw [counts, counts', hl]
    case inr =>
      have ⟨_, _, hs⟩ := run_error hf hk hw
      have ⟨_, _, hs'⟩ := run_error hf' hk' (same ▸ hw')
      exact .failed hs hs' hc.mind id
  all_goals cases unfinished

end Paired
end Scene
end CollectiveLabeling
