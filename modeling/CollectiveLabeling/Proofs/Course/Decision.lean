import CollectiveLabeling.Labeling
import CollectiveLabeling.Proofs.Neighborhood

namespace CollectiveLabeling.Course

open Step

variable {σ : Type} [Decider σ] {c c' : Course σ} {labels : Nat} {plan : Plan} {i n : Nat}

def Idle (c : Course σ) : Prop :=
  c.bench.augmenter.active = none

def neighborhood (c : Course σ) (n : Nat) : Except Fault (List Feature) :=
  c.bench.augmenter.lent c.bench.graph c.pred n

-- The record of a node as the host gets to see it.
def view (c : Course σ) (n : Nat) : Except Fault Record := do
  let r ← c.bench.graph.node n
  if Decider.wantsInput c.mind then c.bench.augmented r <$> c.neighborhood n else return r

-- What the host is asked about a node, if it comes to that.
def question (c : Course σ) (plan : Plan) (i n : Nat) : Except Fault Query := do
  let r ← c.view n
  let near ← c.bench.graph.neighbors n
  return queryFor plan i n r near

theorem question_eq_ok {q : Query} : c.question plan i n = .ok q ↔
    ∃ r near, c.view n = .ok r ∧ c.bench.graph.neighbors n = .ok near ∧
      queryFor plan i n r near = q := by
  simp only [question, Attempt.bind_eq_ok, Attempt.pure_eq, Except.ok.injEq]
  exact ⟨fun ⟨r, hr, near, hn, hq⟩ => ⟨r, near, hr, hn, hq⟩,
    fun ⟨r, near, hr, hn, hq⟩ => ⟨r, hr, near, hn, hq⟩⟩

theorem names_queryFor (plan : Plan) (i n : Nat) (r : Record) (near : List (Int × Int)) :
    ∀ x ∈ (queryFor plan i n r near).conditions, x.2 = conditionName := by
  intro x hx
  obtain ⟨_, _, he⟩ := List.mem_map.mp hx
  exact he ▸ rfl

-- The course after a node has been asked about, up to the answer.
def rested (c : Course σ) (n : Nat) : Course σ :=
  if Decider.wantsInput c.mind then { c with bench := c.bench.rested n c.pred } else c

@[simp]
theorem rested_pred (c : Course σ) (n : Nat) : (c.rested n).pred = c.pred := by
  simp only [rested]
  split <;> rfl

@[simp]
theorem rested_mind (c : Course σ) (n : Nat) : (c.rested n).mind = c.mind := by
  simp only [rested]
  split <;> rfl

theorem rested_idle (h : c.Idle) (n : Nat) : (c.rested n).Idle := by
  simp only [rested, Workbench.rested, Idle] at *
  split <;> try split
  all_goals exact h

-- How the host answers a question about a node, and what is left.
def answered (c : Course σ) (q : Query) (n : Nat) : EStateM.Result Fault (Course σ) Int :=
  match Decider.decide q c.mind with
  | .ok label mind => .ok label { c.rested n with mind }
  | .error f mind => .error f { c.rested n with mind }

theorem ask_apply (plan : Plan) (i n : Nat) (c : Course σ) {r : Record}
    (h : c.bench.graph.node n = .ok r) : ask plan i n c = match c.bench.graph.neighbors n with
      | .ok near => onMind (Decider.decide (queryFor plan i n r near)) c
      | .error f => .error f c := by
  cases hn : c.bench.graph.neighbors n <;> simp [ask, h, hn, lift]

theorem ask_error (plan : Plan) (i n : Nat) (c : Course σ) {f : Fault}
    (h : c.bench.graph.node n = .error f) : ask plan i n c = .error f c := by
  simp [ask, h, lift]

-- What is asked and answered without the features of the neighborhood.
theorem ask_eq (plan : Plan) (i n : Nat) (h : Decider.wantsInput c.mind = false) :
    ask plan i n c = match c.question plan i n with
      | .ok q => c.answered q n
      | .error f => .error f (c.rested n) := by
  have hr : c.rested n = c := by simp [rested, h]
  cases hn : c.bench.graph.node n
  case error => simp [ask_error plan i n c hn, question, view, hn, hr]
  case ok r =>
    have hv : c.view n = .ok r := by simp [view, hn, h]
    rw [ask_apply plan i n c hn]
    simp only [question, hv, Attempt.ok_bind]
    cases c.bench.graph.neighbors n
    case error => simp [hr]
    case ok near =>
      simp only [Attempt.ok_bind, Attempt.pure_eq, answered, hr, onMind, within]
      cases Decider.decide (queryFor plan i n r near) c.mind <;> rfl

-- Taking the features back wipes out all traces of the augmentation but for the tally.
theorem askAugmented_eq (plan : Plan) (i n : Nat) (idle : c.Idle)
    (h : Decider.wantsInput c.mind = true) :
    askAugmented plan i n c = match c.question plan i n with
      | .ok q => c.answered q n
      | .error f => .error f (c.rested n) := by
  have hr : c.rested n = { c with bench := c.bench.rested n c.pred } := by simp [rested, h]
  cases hn : c.bench.graph.node n
  case error f =>
    have ha := Workbench.augment_error c.pred idle hn
    simp [askAugmented, onBench, within, ha, question, view, hn, hr, Workbench.rested]
  case ok r =>
    have ha := Workbench.augment_apply c.pred idle hn
    simp only [askAugmented, onBench, within, bind_apply, get_apply, ha, question, view, hn, h,
      neighborhood, Attempt.ok_bind, if_true]
    cases c.bench.augmenter.lent c.bench.graph c.pred n
    case error => simp [hr]
    case ok fs =>
      have hv := Workbench.revert_laden c.pred idle hn fs
      have hs := ask_apply plan i n { c with bench := c.bench.laden n c.pred r fs }
        (Hypergraph.node_setNode hn (c.bench.augmented r fs))
      simp only [Workbench.laden, Hypergraph.setNode_neighbors] at hs hv
      simp only [afterwards, Workbench.laden, hs, Attempt.map_ok, Attempt.ok_bind]
      cases c.bench.graph.neighbors n
      case error => simp [hr, hv, outcome]
      case ok near =>
        simp only [Attempt.ok_bind, Attempt.pure_eq, answered, onMind, within]
        cases Decider.decide (queryFor plan i n (c.bench.augmented r fs) near) c.mind <;>
          simp [hr, hv, outcome]

-- Asks the way the host wants to be asked.
def query (plan : Plan) (i n : Nat) : Step (Course σ) Int := fun c =>
  if Decider.wantsInput c.mind then askAugmented plan i n c else ask plan i n c

theorem query_eq (plan : Plan) (i n : Nat) (idle : c.Idle) :
    query plan i n c = match c.question plan i n with
      | .ok q => c.answered q n
      | .error f => .error f (c.rested n) := by
  cases h : Decider.wantsInput c.mind
  case true => simpa [query, h] using askAugmented_eq plan i n idle h
  case false => simpa [query, h] using ask_eq plan i n h

-- An answer counts only if it is a label.
def accept (labels n : Nat) (label : Int) : Step (Course σ) Unit :=
  if 1 ≤ label ∧ label ≤ labels then
    modify fun c => { c with pred := c.pred.setIfInBounds n label }
  else throw (Fault.raised (.defect (.answerOutside label labels n)))

theorem decideNode_apply (labels : Nat) (plan : Plan) (i n : Nat) (c : Course σ) :
    decideNode labels plan i n c = (query plan i n >>= accept labels n) c := by
  cases h : Decider.wantsInput c.mind <;> simp [decideNode, query, accept, h]

-- All there is to know about one decision: what the host is asked, what it answers and what is left.
theorem decideNode_eq (labels : Nat) (plan : Plan) (i n : Nat) (idle : c.Idle) :
    decideNode labels plan i n c = match c.question plan i n with
      | .error f => .error f (c.rested n)
      | .ok q => match Decider.decide q c.mind with
        | .error f mind => .error f { c.rested n with mind }
        | .ok label mind =>
          if 1 ≤ label ∧ label ≤ labels then
            .ok ⟨⟩ { c.rested n with mind, pred := c.pred.setIfInBounds n label }
          else .error (Fault.raised (.defect (.answerOutside label labels n))) { c.rested n with mind } := by
  rw [decideNode_apply, bind_apply, query_eq plan i n idle]
  cases c.question plan i n
  case error => rfl
  case ok q =>
    simp only [answered]
    cases Decider.decide q c.mind
    case error => rfl
    case ok label mind =>
      simp only [accept]
      split <;> simp

-- A decision that succeeds.
structure Decided (labels : Nat) (plan : Plan) (i n : Nat) (c c' : Course σ) (label : Int) : Prop where
  answer : ∃ q mind, c.question plan i n = .ok q ∧ Decider.decide q c.mind = .ok label mind ∧
    c' = { c.rested n with mind, pred := c.pred.setIfInBounds n label }
  one_le : 1 ≤ label
  le     : label ≤ labels

theorem decideNode_ok (idle : c.Idle) (h : decideNode labels plan i n c = .ok ⟨⟩ c') :
    ∃ label, Decided labels plan i n c c' label := by
  rw [decideNode_eq labels plan i n idle] at h
  cases hq : c.question plan i n <;> simp only [hq] at h <;> try contradiction
  case ok q =>
    cases hd : Decider.decide q c.mind <;> simp only [hd] at h <;> try contradiction
    case ok label mind =>
      split at h <;> cases h
      case isTrue hl => exact ⟨label, ⟨q, mind, hq, hd, rfl⟩, hl.left, hl.right⟩

end CollectiveLabeling.Course
