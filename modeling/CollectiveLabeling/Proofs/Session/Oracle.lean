import CollectiveLabeling.Proofs.Confusion.Diagonal
import CollectiveLabeling.Proofs.Course.Training
import CollectiveLabeling.Proofs.Session.Fixed

namespace CollectiveLabeling

open Step

-- Every node that has a label is given it.
def Hypergraph.Right (g : Hypergraph) (pred : Array Int) : Prop :=
  ∀ (n : Nat) (r : Record), g.nodes[n]? = some r → 0 < r.label → pred[n]? = some r.label

theorem Hypergraph.count_ne_zero {g : Hypergraph} {t : Nat} :
    g.trueLabels.count (t : Int) ≠ 0 ↔ ∃ r ∈ g.nodes, r.label = t := by
  rw [← Nat.pos_iff_ne_zero, List.count_pos_iff]
  simp [trueLabels]

theorem Hypergraph.costs_of_node {g g' : Hypergraph} {n : Nat} {r r' : Record}
    (same : g'.nodes.map Record.costs = g.nodes.map Record.costs) (hr : g.nodes[n]? = some r)
    (hr' : g'.node n = .ok r') : r'.costs = r.costs := by
  have at_n := congrArg (·[n]?) same
  obtain ⟨lt, rfl⟩ := Array.getElem?_eq_some_iff.mp hr
  have size : g'.nodes.size = g.nodes.size := by simpa using congrArg Array.size same
  rw [node, lookup_natCast (size ▸ lt)] at hr'
  cases hr'
  simpa [size, lt] using at_n

namespace Session

variable {s₀ s : Session Apprentice} {place : Option Nat} {g : Hypergraph} {order : List Nat}

-- What a node is given at a decision is its true label, if it has one.
theorem Accepted.label_of_reached (h : s.Accepted place g order)
    (training : s.scene.host.mind.training = true) {d : Decision Apprentice} (hd : d ∈ s.reached place)
    {r : Record} (hr : g.nodes[d.node]? = some r) (labeled : 0 < r.label) {label : Int}
    (answer : d.answer s.scene.labeling.plan = .ok label) : label = r.label := by
  rw [h.reached] at hd
  have ⟨earlier, chain, _⟩ := (Course.ends _ _ _ h.idle).reached hd
  have learning : d.start.mind.training = true := chain.mind (Apprentice.keeps_training true) training
  have ⟨q, asked, answer⟩ := Attempt.bind_eq_ok.mp answer
  obtain ⟨r', near, seen, _, rfl⟩ := Course.question_eq_ok.mp asked
  have ⟨r₁, node, costs⟩ := Course.view_costs seen
  have same : r'.label = r.label :=
    Record.label_congr (costs.trans (Hypergraph.costs_of_node chain.same.costs hr node))
  have oracle : (Course.queryFor s.scene.labeling.plan d.pass d.node r' near).oracle = some r.label := by
    simp only [Course.queryFor, same, if_pos labeled]
  exact Apprentice.label_of_oracle learning oracle (outcome_ok.mp (Prod.ext answer rfl))

-- The labels of an episode that is worked through in training.
theorem Accepted.labels_of_training (h : s.Accepted place g order)
    (training : s.scene.host.mind.training = true) {c : Course Apprentice}
    (done : s.course g order = .ok ⟨⟩ c) : c.pred.size = g.nodes.size ∧
      g.Right c.pred := by
  have ⟨chain, keys⟩ := Course.completes h.idle done
  refine ⟨chain.size_pred rfl, fun n r hr labeled => ?_⟩
  have ⟨lt, _⟩ := Array.getElem?_eq_some_iff.mp hr
  have ⟨label, latest, given⟩ := chain.getElem?_pred_of_schedule rfl h.order_perm keys lt
  obtain ⟨d, hd, rfl, answer⟩ := Decision.exists_of_latest latest
  rw [← h.reached] at hd
  rw [given, h.label_of_reached training hd hr labeled answer]

-- What comes of an episode in training: every node that has a label is given it, so nothing is counted
-- off the diagonal and, in exact arithmetic, nothing is lost, unless there is no label at all.
structure Rehearsed (v : Verdict) (g : Hypergraph) (pred : Array Int) (k : Confusion) : Prop where
  verdict : v = ⟨.ok (some k.loss), .ok pred, some k⟩
  size    : pred.size = g.nodes.size
  right   : g.Right pred
  counts  : k.Diagonal fun t => g.trueLabels.count (t : Int)
  loss    : (∃ r ∈ g.nodes, 0 < r.label) → (1 : Rat) - k.macroF1 = 0
  void    : (∀ r ∈ g.nodes, r.label = 0) → (1 : Rat) - k.macroF1 = 1

theorem diagonal_of_right {pred : Array Int} {k : Confusion} (size : pred.size = g.nodes.size)
    (right : g.Right pred)
    (counts : ∀ t p, k.count t p = Scene.tallied (g.trueLabels.zip pred.toList) t p) :
    k.Diagonal fun t => g.trueLabels.count (t : Int) := by
  have pairs : List.Forall₂ (fun x y => 0 < x → y = x) g.trueLabels pred.toList := by
    refine List.forall₂_iff_get.mpr ⟨by simp [Hypergraph.trueLabels, size], fun n hn hp labeled => ?_⟩
    simp only [List.get_eq_getElem, Hypergraph.trueLabels, List.getElem_map, Array.getElem_toList] at labeled ⊢
    have found := right n _ (Array.getElem?_eq_getElem (by simpa [Hypergraph.trueLabels] using hn)) labeled
    obtain ⟨_, given⟩ := Array.getElem?_eq_some_iff.mp found
    exact given
  intro t p
  rw [counts, Scene.tallied_of_right pairs]

-- An apprentice that has exactly the labels that are asked for gets through every episode that is
-- accepted, whether it learns or not.
theorem Accepted.loss_of_versed (h : s.Accepted place g order)
    (versed : (s.opening g).Versed s.scene.labeling.labels s.scene.labeling.plan) :
    ∃ loss, (s.verdict place).loss = .ok loss := by
  have ⟨c, hc⟩ := Course.follow_of_versed versed h.of_schedule
  cases h.worked
  case failed hw _ => cases hw.symm.trans hc
  case done verdict => exact ⟨_, congrArg Verdict.loss verdict⟩

-- The sample with an apprentice that learns.
def sampleTraining : Session Apprentice :=
  sample { mind := { policy := { labels := 2, space := .standard, rate := 1.0, learners := #[.zero] } } }

-- In training, that an episode is worked through is enough to know its score.
theorem Accepted.rehearsed (h : s.Accepted place g order)
    (training : s.scene.host.mind.training = true) {loss : Option Float}
    (returns : (s.verdict place).loss = .ok loss) : ∃ pred k, Rehearsed (s.verdict place) g pred k := by
  cases h.worked
  case failed failed => cases (congrArg Verdict.loss failed).symm.trans returns
  case done c k done side counts verdict =>
    have ⟨size, right⟩ := h.labels_of_training training done
    have diagonal := diagonal_of_right size right counts
    refine ⟨c.pred, k, verdict, size, right, diagonal, fun ⟨r, hr, labeled⟩ => ?_, fun none => ?_⟩
    case refine_1 =>
      have ⟨_, le⟩ := h.sound_graph.label r hr
      obtain ⟨t, ht⟩ := Int.eq_ofNat_of_zero_le (Int.le_of_lt labeled)
      exact diagonal.loss_of_occurs (k := t) (by omega) (Hypergraph.count_ne_zero.mpr ⟨r, hr, ht⟩)
    case refine_2 =>
      refine diagonal.loss_of_none fun t pos _ => Decidable.byContradiction fun occurs => ?_
      have ⟨r, hr, ht⟩ := Hypergraph.count_ne_zero.mp occurs
      have zero := none r hr
      omega

end Session
end CollectiveLabeling
