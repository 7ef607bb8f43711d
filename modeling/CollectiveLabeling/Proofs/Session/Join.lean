import CollectiveLabeling.Proofs.Course.Join
import CollectiveLabeling.Proofs.Session.Fixed

namespace CollectiveLabeling

open Step

-- A table that counts what two others count.
structure Confusion.Adds (k₁ k₂ k : Confusion) : Prop where
  left   : k₁.side = k.side
  right  : k₂.side = k.side
  counts : ∀ t p, k.count t p = k₁.count t p + k₂.count t p

theorem Hypergraph.trueLabels_join (g h : Hypergraph) :
    (g.join h).trueLabels = g.trueLabels ++ h.trueLabels := by
  simp [trueLabels, join]

namespace Session

variable {s₀ s : Session Apprentice} {p q r place : Option Nat} {g h : Hypergraph}
  {order order' order'' : List Nat} {pred : Array Int} {k : Confusion}

-- An episode that is worked through to its end, with the order of its visit, the labels that its nodes
-- get and their score.
structure Completes (s : Session Apprentice) (place : Option Nat) (order : List Nat) (pred : Array Int)
    (k : Confusion) : Prop where
  done      : ∃ loss t, runEpisode place s = .ok loss t
  order     : ∃ t f, setup place s.forgotten = .ok ⟨⟩ t ∧ t.scene.labeling.frame = some f ∧ f.order = order
  labels    : (s.verdict place).labels = .ok pred
  confusion : (s.verdict place).confusion = some k

theorem accepted_of_done (sound : s.scene.labeling.Sound)
    (hd : ∃ loss t, runEpisode place s = .ok loss t) : ∃ g order, s.Accepted place g order := by
  have ⟨_, _, hd⟩ := hd
  exact accepted_of_loss sound (congrArg Prod.fst (outcome_ok.mpr hd))

namespace Accepted

theorem completes {c : Course Apprentice} (h : s.Accepted place g order)
    (hc : s.course g order = .ok ⟨⟩ c) : ∃ k, s.Completes place order c.pred k ∧
      k.side = s.scene.labeling.labels + 1 ∧
      ∀ t p, k.count t p = Scene.tallied (g.trueLabels.zip c.pred.toList) t p := by
  cases h.worked
  case failed hf _ => cases hf.symm.trans hc
  case done k hf side counts hv =>
    cases hf.symm.trans hc
    have ⟨t, hs, _, hf, _⟩ := h.setup
    refine ⟨k, ?_, side, counts⟩
    exact {
      done      := by
        have loss : (outcome (runEpisode place) s).1 = .ok (some k.loss) := congrArg Verdict.loss hv
        exact ⟨_, _, outcome_ok.mp (Prod.ext loss rfl)⟩
      order     := ⟨t, _, hs, hf, rfl⟩
      labels    := congrArg Verdict.labels hv
      confusion := congrArg Verdict.confusion hv }

theorem course_ok (h : s.Accepted place g order) (hd : ∃ loss t, runEpisode place s = .ok loss t) :
    ∃ c, s.course g order = .ok ⟨⟩ c := by
  have ⟨_, _, hd⟩ := hd
  cases h.worked
  case done c _ hf _ _ _ => exact ⟨c, hf⟩
  case failed hv =>
    have verdict := congrArg Verdict.loss hv
    simp [Session.verdict, outcome, hd] at verdict

-- An apprentice that is up to its plan gets through every episode that is accepted.
theorem done_of_capable (h : s.Accepted place g order) (testing : s.scene.host.mind.training = false)
    (capable : (s.opening g).Capable s.scene.labeling.labels s.scene.labeling.plan) :
    ∃ loss t, runEpisode place s = .ok loss t := by
  have ⟨c, hc⟩ := Course.follow_of_capable (h.ready testing) capable h.of_schedule
  have ⟨_, completes, _⟩ := h.completes hc
  exact completes.done

variable (hp : s.Accepted p g order) (hq : s.Accepted q h order')
include hp hq

theorem join (joined : s.episode r = Episode.join (s.episode p) (s.episode q)) :
    s.Accepted r (g.join h) (order ++ order'.map (· + g.nodes.size)) := by
  have graph : Episode.toGraph (some s.scene.labeling.labels) (s.episode r) = .ok (g.join h) :=
    joined ▸ Episode.toGraph_join hp.graph hq.graph
  have visit := Sweep.order_join hp.sound_graph hq.sound_graph (Episode.sound_toGraph graph)
    hp.visit hq.visit
  exact ⟨hp.sound, hp.unfinished, graph, visit⟩

theorem split (hr : s.Accepted r (g.join h) order'') (testing : s.scene.host.mind.training = false) :
    Course.Split s.scene.labeling.labels g.nodes.size h.nodes.size g.edges.size
      (s.opening g) (s.opening h) (s.opening (g.join h)) := by
  have size : (g.join h).nodes.size = g.nodes.size + h.nodes.size := by simp [Hypergraph.join]
  exact {
    left       := {
      ready      := hp.ready testing
      ready'     := hr.ready testing
      graph      := Hypergraph.within_join_left hp.sound_graph
      space      := rfl
      structured := rfl
      pred       := Augmenter.found_replicate (size ▸ Nat.le_add_right ..) _
      memory     := fun _ _ => rfl
      like       := .refl _ }
    right      := {
      ready      := hq.ready testing
      ready'     := hr.ready testing
      graph      := Hypergraph.within_join_right hp.sound_graph
      space      := rfl
      structured := rfl
      pred       := Augmenter.found_replicate (by rw [size, Nat.add_comm]; exact Nat.le_refl _) _
      memory     := fun _ _ => rfl
      like       := .refl _ }
    size_left  := rfl
    size_right := rfl
    size       := size }

end Accepted

-- Parts of an episode that are not connected do not influence each other.
theorem runEpisode_join (opened : s₀.Opened) (steps : s₀.Steps s)
    (testing : s.scene.host.mind.training = false)
    (hp : ∃ loss t, runEpisode p s = .ok loss t) (hq : ∃ loss t, runEpisode q s = .ok loss t)
    (joined : s.episode r = Episode.join (s.episode p) (s.episode q)) :
    ∃ order order' pred pred' k k' k'',
      s.Completes p order pred k ∧ s.Completes q order' pred' k' ∧
      s.Completes r (order ++ order'.map (· + (Episode.nodes (s.episode p)).length)) (pred ++ pred') k'' ∧
      k.Adds k' k'' := by
  have ⟨_, _, started⟩ := opened.started
  have sound := steps.sound started.sound
  have ⟨g, order, accepted⟩ := accepted_of_done sound hp
  have ⟨h, order', accepted'⟩ := accepted_of_done sound hq
  have ⟨a, ha⟩ := accepted.course_ok hp
  have ⟨b, hb⟩ := accepted'.course_ok hq
  have accepted'' := accepted.join accepted' joined
  have ⟨w, hw, split⟩ := (accepted.split accepted' accepted'' testing).follow_schedule
    (fun n hn => List.mem_range.mp (accepted.order_perm.mem_iff.mp hn))
    (fun n hn => List.mem_range.mp (accepted'.order_perm.mem_iff.mp hn)) ha hb
  have ⟨k, completes, side, counts⟩ := accepted.completes ha
  have ⟨k', completes', side', counts'⟩ := accepted'.completes hb
  have ⟨k'', completes'', side'', counts''⟩ := accepted''.completes hw
  rw [split.pred_eq, Episode.size_toGraph accepted.graph] at completes''
  refine ⟨order, order', a.pred, b.pred, k, k', k'', completes, completes', completes'', ?_⟩
  have length : g.trueLabels.length = a.pred.toList.length := by
    have size := split.left.ready.labeled.size.trans split.size_left
    simp [Hypergraph.trueLabels, size]
  exact {
    left   := side.trans side''.symm
    right  := side'.trans side''.symm
    counts := fun t p => by
      rw [counts, counts', counts'', split.pred_eq, Hypergraph.trueLabels_join, Array.toList_append,
        List.zip_append length, Scene.tallied_append] }

-- Two episodes and, behind them, both in one.
def sampleJoin : Session Apprentice :=
  { sampleTest with shelf := #[sampleEpisode 1 2, sampleEpisode 2 0,
    Episode.join (sampleEpisode 1 2) (sampleEpisode 2 0)] }

theorem opened_sampleJoin : sampleJoin.Opened where
  start   := opened_sampleTest.start
  current := rfl

theorem done_sampleJoin {label label' : Int} (hg : Episode.toGraph (some sampleJoin.scene.labeling.labels)
    (sampleJoin.episode place) = .ok (sampleGraph label label')) :
    ∃ loss t, runEpisode place sampleJoin = .ok loss t :=
  have ⟨_, _, started⟩ := opened_sampleJoin.started
  have ⟨_, accepted⟩ := accepted_of_graph started.sound rfl hg
  accepted.done_of_capable rfl {
    movable := movable_sampleGraph label label'
    known   := fun _ _ => rfl
    pos     := Nat.succ_pos 1
    le      := Nat.le_refl 2 }

theorem runEpisode_join_sample : ∃ order order' pred pred' k k' k'',
    sampleJoin.Completes (some 0) order pred k ∧ sampleJoin.Completes (some 1) order' pred' k' ∧
    sampleJoin.Completes (some 2) (order ++ order'.map (· + 2)) (pred ++ pred') k'' ∧
    k.Adds k' k'' :=
  runEpisode_join opened_sampleJoin .refl rfl (done_sampleJoin rfl) (done_sampleJoin rfl) rfl

end Session
end CollectiveLabeling
