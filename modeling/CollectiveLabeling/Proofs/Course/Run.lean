import CollectiveLabeling.Proofs.Course.Decision
import CollectiveLabeling.Proofs.Sweep

namespace CollectiveLabeling

-- Some passes over an order of visit, as pairs of pass and node.
def Sweep.rounds (order is : List Nat) : List (Nat × Nat) :=
  is.flatMap fun (i : Nat) => (Sweep.direct order i).map (i, ·)

-- The passes of a plan over an order of visit, as pairs of pass and node. The first pass goes through the
-- order from its beginning, the second from its end, and so on in turn.
def Plan.schedule (plan : Plan) (order : List Nat) : List (Nat × Nat) :=
  (List.range plan.passes).flatMap fun i => (if i % 2 = 0 then order else order.reverse).map (i, ·)

theorem Plan.schedule_eq_rounds (plan : Plan) (order : List Nat) :
    plan.schedule order = Sweep.rounds order (List.range plan.passes) := by
  simp only [schedule, Sweep.rounds, Sweep.direct_natCast]

-- A decision that is taken in a run: its pass, its node and the course at its start.
structure Decision (σ : Type) where
  pass  : Nat
  node  : Nat
  start : Course σ

namespace Decision

variable {σ : Type} [Decider σ]

def key (d : Decision σ) : Nat × Nat :=
  (d.pass, d.node)

-- What the host is asked. It is not asked if the node cannot be augmented.
def question (plan : Plan) (d : Decision σ) : Except Fault Query :=
  d.start.question plan d.pass d.node

def answer (plan : Plan) (d : Decision σ) : Except Fault Int := do
  let q ← d.question plan
  (Step.outcome (Decider.decide q) d.start.mind).1

-- The labels after a decision.
def mark (plan : Plan) (pred : Array Int) (d : Decision σ) : Array Int :=
  match d.answer plan with
  | .ok label => pred.setIfInBounds d.node label
  | .error _ => pred

-- The label that a node got last.
def latest (plan : Plan) (ds : List (Decision σ)) (n : Nat) : Option Int :=
  (ds.reverse.find? (·.node = n)).bind fun d => (d.answer plan).toOption

end Decision

namespace Course

open Step Decision

variable {σ : Type} [Decider σ] {c c' : Course σ} {labels : Nat} {plan : Plan}
  {ds ds₁ ds₂ : List (Decision σ)} {d : Decision σ}

theorem Decided.decision_answer {i n : Nat} {label : Int} (h : Decided labels plan i n c c' label) :
    (Decision.mk i n c).answer plan = .ok label := by
  have ⟨q, mind, hq, hd, _⟩ := h.answer
  simp [Decision.answer, Decision.question, hq, outcome, hd]

theorem Decided.pred_eq {i n : Nat} {label : Int} (h : Decided labels plan i n c c' label) :
    c'.pred = (Decision.mk i n c).mark plan c.pred := by
  have ⟨_, _, _, _, hc⟩ := h.answer
  simp [mark, h.decision_answer, hc]

theorem Decided.idle {i n : Nat} {label : Int} (h : Decided labels plan i n c c' label)
    (idle : c.Idle) : c'.Idle := by
  have ⟨_, _, _, _, hc⟩ := h.answer
  exact hc ▸ rested_idle idle n

-- A row of decisions that all succeed, and where it leads.
inductive Chain (labels : Nat) (plan : Plan) : Course σ → List (Decision σ) → Course σ → Prop
  | nil (c : Course σ) : Chain labels plan c [] c
  | cons {c c' c'' : Course σ} {i n : Nat} {label : Int} {ds : List (Decision σ)} :
      Decided labels plan i n c c' label →
      Chain labels plan c' ds c'' → Chain labels plan c (⟨i, n, c⟩ :: ds) c''

namespace Chain

theorem idle (h : Chain labels plan c ds c') (idle : c.Idle) : c'.Idle := by
  induction h
  case nil => exact idle
  case cons hd _ hi => exact hi (hd.idle idle)

theorem pred_eq (h : Chain labels plan c ds c') : c'.pred = ds.foldl (mark plan) c.pred := by
  induction h
  case nil => rfl
  case cons hd _ hi => rw [List.foldl_cons, ← hd.pred_eq, hi]

theorem answers (h : Chain labels plan c ds c') :
    ∀ d ∈ ds, ∃ label, d.answer plan = .ok label ∧ 1 ≤ label ∧ label ≤ labels := by
  induction h
  case nil => simp
  case cons hd _ hi =>
    intro d hm
    cases List.mem_cons.mp hm
    case inl he => exact ⟨_, he ▸ hd.decision_answer, hd.one_le, hd.le⟩
    case inr hm => exact hi d hm

theorem split (h : Chain labels plan c (ds₁ ++ d :: ds₂) c') : Chain labels plan c ds₁ d.start := by
  induction ds₁ generalizing c
  case nil => cases h; exact nil _
  case cons _ _ hi =>
    cases h
    case cons hd h => exact cons hd (hi h)

end Chain

-- Takes the decisions of a schedule, one after the other.
def follow (labels : Nat) (plan : Plan) (schedule : List (Nat × Nat)) : Step (Course σ) Unit :=
  schedule.forM fun (i, n) => decideNode labels plan i n

theorem pass_eq_follow (labels : Nat) (plan : Plan) (order : List Nat) (i : Nat) :
    pass (σ := σ) labels plan order i = follow labels plan ((Sweep.direct order i).map (i, ·)) := by
  simp only [pass, follow, List.forM_eq_forM, List.forM_map]

theorem forM_pass (labels : Nat) (plan : Plan) (order is : List Nat) :
    is.forM (pass (σ := σ) labels plan order) = follow labels plan (Sweep.rounds order is) := by
  induction is
  case nil => rfl
  case cons i is hi =>
    simp only [Sweep.rounds, follow, List.forM_eq_forM, List.forM_cons, List.flatMap_cons,
      List.forM_append, List.forM_map] at hi ⊢
    rw [hi]
    rfl

-- The decisions that are taken on a schedule, up to and with the first that fails.
def decisions (labels : Nat) (plan : Plan) : List (Nat × Nat) → Course σ → List (Decision σ)
  | [], _ => []
  | (i, n) :: schedule, c => ⟨i, n, c⟩ :: match decideNode labels plan i n c with
    | .ok _ c' => decisions labels plan schedule c'
    | .error _ _ => []

theorem decisions_ne_nil {schedule : List (Nat × Nat)} (h : schedule ≠ []) :
    decisions labels plan schedule c ≠ [] := by
  cases schedule
  case nil => exact absurd rfl h
  case cons => simp [decisions]

theorem follow_cons (i n : Nat) (schedule : List (Nat × Nat)) (c : Course σ) :
    follow labels plan ((i, n) :: schedule) c = match decideNode labels plan i n c with
      | .ok _ c' => follow labels plan schedule c'
      | .error f c' => .error f c' := by
  simp only [follow, List.forM_eq_forM, List.forM_cons, bind_apply]
  cases decideNode labels plan i n c <;> rfl

theorem follow_append_eq_ok {schedule schedule' : List (Nat × Nat)} :
    follow labels plan (schedule ++ schedule') c = .ok ⟨⟩ c' ↔ ∃ c₁,
      follow labels plan schedule c = .ok ⟨⟩ c₁ ∧ follow labels plan schedule' c₁ = .ok ⟨⟩ c' :=
  forM_append_eq_ok

-- What single decisions lead from course to course, whole schedules lead on.
theorem follow_lift {R : Course σ → Course σ → Prop} {plan' : Plan} {f : Nat → Nat}
    {schedule : List (Nat × Nat)} {w : Course σ} (idle : ∀ c w, R c w → c.Idle)
    (step : ∀ i n, (i, n) ∈ schedule → ∀ c c' w label, R c w → Decided labels plan i n c c' label →
      ∃ w', decideNode labels plan' i (f n) w = .ok ⟨⟩ w' ∧ R c' w')
    (h : R c w) (hf : follow labels plan schedule c = .ok ⟨⟩ c') :
    ∃ w', follow labels plan' (schedule.map fun (i, n) => (i, f n)) w = .ok ⟨⟩ w' ∧ R c' w' := by
  induction schedule generalizing c w
  case nil =>
    cases hf
    exact ⟨w, rfl, h⟩
  case cons key schedule hi =>
    obtain ⟨i, n⟩ := key
    rw [follow_cons] at hf
    cases ha : decideNode labels plan i n c <;> simp only [ha] at hf
    case error => cases hf
    case ok u c₁ =>
      have ⟨label, hd⟩ := decideNode_ok (idle c w h) ha
      have ⟨w₁, hd', h₁⟩ := step i n (by simp) c c₁ w label h hd
      have ⟨w', hf', h'⟩ := hi (fun i n hk => step i n (by simp [hk])) h₁ hf
      exact ⟨w', by rw [List.map_cons, follow_cons, hd']; exact hf', h'⟩

-- A run either takes all decisions of its schedule or ends with one that fails.
inductive Ends (labels : Nat) (plan : Plan) (schedule : List (Nat × Nat)) (c : Course σ) : Prop
  | done {c' : Course σ} : follow labels plan schedule c = .ok ⟨⟩ c' →
      Chain labels plan c (decisions labels plan schedule c) c' →
      (decisions labels plan schedule c).map key = schedule → Ends labels plan schedule c
  | failed {ds : List (Decision σ)} {d : Decision σ} {f : Fault} {c' : Course σ} :
      follow labels plan schedule c = .error f c' →
      decisions labels plan schedule c = ds ++ [d] → Chain labels plan c ds d.start →
      decideNode labels plan d.pass d.node d.start = .error f c' →
      (ds ++ [d]).map key <+: schedule → Ends labels plan schedule c

theorem ends (labels : Nat) (plan : Plan) (schedule : List (Nat × Nat)) (idle : c.Idle) :
    Ends labels plan schedule c := by
  induction schedule generalizing c
  case nil => exact .done rfl (.nil c) rfl
  case cons key schedule hi =>
    have ⟨i, n⟩ := key
    cases h : decideNode labels plan i n c
    case error f c' =>
      have hs : decisions labels plan ((i, n) :: schedule) c = [] ++ [⟨i, n, c⟩] := by
        simp [decisions, h]
      exact .failed (by rw [follow_cons, h]) hs (.nil c) h (by simp [Decision.key])
    case ok u c' =>
      have ⟨label, hd⟩ := decideNode_ok idle h
      have hf : follow labels plan ((i, n) :: schedule) c = follow labels plan schedule c' := by
        rw [follow_cons, h]
      have hs : decisions labels plan ((i, n) :: schedule) c =
          ⟨i, n, c⟩ :: decisions labels plan schedule c' := by
        simp [decisions, h]
      cases hi (hd.idle idle)
      case done c'' hw hc hk =>
        have keys : (decisions labels plan ((i, n) :: schedule) c).map Decision.key = (i, n) :: schedule := by
          simp [hs, hk, Decision.key]
        exact .done (hf.trans hw) (hs ▸ .cons hd hc) keys
      case failed ds d f c'' hw he hc hn hk =>
        have hs' : decisions labels plan ((i, n) :: schedule) c = (⟨i, n, c⟩ :: ds) ++ [d] := by
          simp [hs, he]
        exact .failed (hf.trans hw) hs' (.cons hd hc) hn (by simpa [Decision.key] using hk)

-- A run that is not given up takes all the decisions of its schedule.
theorem completes {schedule : List (Nat × Nat)} (idle : c.Idle)
    (h : follow labels plan schedule c = .ok ⟨⟩ c') :
    Chain labels plan c (decisions labels plan schedule c) c' ∧
      (decisions labels plan schedule c).map key = schedule := by
  cases ends labels plan schedule idle
  case done hw hc hk =>
    cases hw.symm.trans h
    exact ⟨hc, hk⟩
  case failed hw _ _ _ _ => cases hw.symm.trans h

end Course
end CollectiveLabeling
