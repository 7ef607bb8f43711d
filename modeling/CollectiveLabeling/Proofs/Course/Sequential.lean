import CollectiveLabeling.Proofs.Course.Preserved

namespace CollectiveLabeling

-- A decision of a later pass comes after the whole of the first pass.
theorem Plan.first_of_prefix {plan : Plan} {order : List Nat} {keys : List (Nat × Nat)}
    {key : Nat × Nat} (h : keys ++ [key] <+: plan.schedule order) (hk : key.1 ≠ 0) {n : Nat}
    (hn : n ∈ order) : (0, n) ∈ keys := by
  have ⟨later, hs, _⟩ := plan.schedule_eq order
  have ⟨rest, hr⟩ := h
  have first : (0, n) ∈ order.map (0, ·) := List.mem_map.mpr ⟨n, hn, rfl⟩
  have hm : (0, n) ∈ keys ++ [key] := by
    cases List.append_eq_append_iff.mp (hr.trans hs)
    case inl h =>
      have ⟨_, hf, _⟩ := h
      have : key ∈ order.map (0, ·) := by simp [hf]
      have ⟨_, _, he⟩ := List.mem_map.mp this
      cases he
      contradiction
    case inr h =>
      have ⟨_, hf, _⟩ := h
      simp only [hf, List.mem_append, first, true_or]
  cases List.mem_append.mp hm
  case inl hm => exact hm
  case inr hm =>
    cases List.mem_singleton.mp hm
    contradiction

namespace Decision

variable {σ : Type} [Decider σ]

-- The host is asked, and what it answers is a label.
def Succeeds (labels : Nat) (plan : Plan) (d : Decision σ) : Prop :=
  ∃ label, d.answer plan = .ok label ∧ 1 ≤ label ∧ label ≤ labels

-- What a decision fails with: the node cannot be augmented, the host fails, or its answer is no
-- label.
inductive Fails (labels : Nat) (plan : Plan) (d : Decision σ) : Fault → Prop
  | unanswered {e : Fault} : d.answer plan = .error e → Fails labels plan d e
  | outside {label : Int} : d.answer plan = .ok label → ¬ (1 ≤ label ∧ label ≤ labels) →
      Fails labels plan d (Fault.raised (.defect (.answerOutside label labels d.node)))

theorem Fails.not_succeeds {labels : Nat} {plan : Plan} {d : Decision σ} {e : Fault}
    (h : d.Fails labels plan e) : ¬ d.Succeeds labels plan := by
  intro ⟨label, ha, hl⟩
  cases h
  case unanswered he => cases he.symm.trans ha
  case outside ho hn =>
    cases ho.symm.trans ha
    exact hn hl

-- The decisions for which the host is asked.
def calls (plan : Plan) (ds : List (Decision σ)) : List (Decision σ) :=
  ds.filter fun d => (d.question plan).toOption.isSome

theorem calls_of_succeeds {labels : Nat} {plan : Plan} {ds : List (Decision σ)}
    (h : ∀ d ∈ ds, d.Succeeds labels plan) : calls plan ds = ds := by
  refine List.filter_eq_self.mpr fun d hd => ?_
  have ⟨_, ha, _⟩ := h d hd
  cases hq : d.question plan
  case ok => rfl
  case error => simp [answer, hq] at ha

-- The calls are a beginning of the decisions if only the last decision can fail.
theorem calls_concat {labels : Nat} {plan : Plan} {ds : List (Decision σ)}
    (h : ∀ d ∈ ds, d.Succeeds labels plan) (d : Decision σ) : calls plan (ds ++ [d]) <+: ds ++ [d] := by
  have hc := calls_of_succeeds h
  simp only [calls] at hc ⊢
  rw [List.filter_append, hc]
  cases hq : (d.question plan).toOption.isSome <;> simp [hq]

end Decision

namespace Course

open Step Decision

variable {σ : Type} [Decider σ] {c c' : Course σ} {labels : Nat} {plan : Plan}
  {schedule : List (Nat × Nat)} {ds : List (Decision σ)}

theorem Decided.same {i n : Nat} {label : Int} (h : Decided labels plan i n c c' label) :
    c.bench.Same c'.bench := by
  have ⟨_, _, _, _, hc⟩ := h.answer
  exact hc ▸ c.rested_same n

theorem Chain.same (h : Chain labels plan c ds c') : c.bench.Same c'.bench := by
  induction h
  case nil => exact .refl _
  case cons hd _ hi => exact hd.same.trans hi

theorem Chain.succeeds (h : Chain labels plan c ds c') : ∀ d ∈ ds, d.Succeeds labels plan :=
  h.answers

-- Every decision is reached by the ones before it, all of which succeed.
theorem Ends.chain (h : Ends labels plan schedule c) {earlier later : List (Decision σ)}
    {d : Decision σ} (hd : decisions labels plan schedule c = earlier ++ d :: later) :
    Chain labels plan c earlier d.start := by
  cases h
  case done hc _ => exact (hd ▸ hc).split
  case failed ds d' _ _ _ he hc _ _ =>
    cases List.eq_nil_or_concat later
    case inl hl =>
      subst hl
      have ⟨hds, hdd⟩ := List.append_inj' (he.symm.trans hd) rfl
      cases hds
      cases hdd
      exact hc
    case inr hl =>
      have ⟨later', d'', hl⟩ := hl
      have : ds ++ [d'] = (earlier ++ d :: later') ++ [d''] := by
        rw [← he, hd, hl]
        simp
      have ⟨hds, _⟩ := List.append_inj' this rfl
      exact (hds ▸ hc).split

theorem Ends.keys (h : Ends labels plan schedule c) :
    (decisions labels plan schedule c).map key <+: schedule := by
  cases h
  case done _ hk => exact ⟨[], (List.append_nil _).trans hk⟩
  case failed he _ _ hk => exact he ▸ hk

-- Every decision is reached by a beginning of the schedule.
theorem Ends.reached (h : Ends labels plan schedule c) {d : Decision σ}
    (hd : d ∈ decisions labels plan schedule c) :
    ∃ earlier, Chain labels plan c earlier d.start ∧ (earlier ++ [d]).map key <+: schedule := by
  have ⟨earlier, later, he⟩ := List.append_of_mem hd
  refine ⟨earlier, h.chain he, List.IsPrefix.trans ?_ h.keys⟩
  exact ⟨later.map key, by simp [he]⟩

theorem fails_of_error {i n : Nat} {e : Fault} (idle : c.Idle)
    (h : decideNode labels plan i n c = .error e c') : (Decision.mk i n c).Fails labels plan e := by
  rw [decideNode_eq labels plan i n idle] at h
  cases hq : c.question plan i n <;> simp only [hq] at h
  case error f =>
    cases h
    exact .unanswered (by simp [answer, Decision.question, hq])
  case ok q =>
    cases hd : Decider.decide q c.mind <;> simp only [hd] at h
    case error f mind =>
      cases h
      exact .unanswered (by simp [answer, Decision.question, hq, outcome, hd])
    case ok label mind =>
      split at h <;> cases h
      case isFalse hl =>
        have answer : (Decision.mk i n c).answer plan = .ok label := by
          simp [answer, Decision.question, hq, outcome, hd]
        exact .outside answer hl

-- A run that is given up has failed at its last decision.
theorem stops {e : Fault} (idle : c.Idle) (h : follow labels plan schedule c = .error e c') :
    ∃ earlier d, decisions labels plan schedule c = earlier ++ [d] ∧
      (∀ d' ∈ earlier, d'.Succeeds labels plan) ∧ d.Fails labels plan e := by
  cases ends labels plan schedule idle
  case done hw _ _ => cases hw.symm.trans h
  case failed ds d _ _ hw he hc hn _ =>
    cases hw.symm.trans h
    exact ⟨ds, d, he, hc.succeeds, fails_of_error (hc.idle idle) hn⟩

-- A run is cut short by a decision that fails, and by nothing else.
theorem whole_of_succeeds (idle : c.Idle)
    (h : ∀ d ∈ decisions labels plan schedule c, d.Succeeds labels plan) :
    (decisions labels plan schedule c).map key = schedule := by
  cases hw : follow labels plan schedule c
  case ok => exact (completes idle hw).right
  case error =>
    have ⟨_, d, he, _, hf⟩ := stops idle hw
    exact absurd (h d (by simp [he])) hf.not_succeeds

theorem calls_prefix (idle : c.Idle) :
    (calls plan (decisions labels plan schedule c)).map key <+: schedule := by
  have hk := (ends labels plan schedule idle).keys
  cases hw : follow labels plan schedule c
  case ok =>
    rw [calls_of_succeeds (completes idle hw).left.succeeds]
    exact hk
  case error =>
    have ⟨_, d, he, hd, _⟩ := stops idle hw
    rw [he] at hk ⊢
    exact ((calls_concat hd d).map key).trans hk

-- A host that keeps a list of what it is asked is asked the questions of the decisions, in order.
section Asked

variable {asked : σ → List Query}
  (hq : ∀ q mind, asked (outcome (Decider.decide q) mind).2 = asked mind ++ [q])
include hq

theorem asked_decideNode (labels : Nat) (plan : Plan) (i n : Nat) (idle : c.Idle) :
    asked (outcome (decideNode labels plan i n) c).2.mind =
      asked c.mind ++ (c.question plan i n).toOption.toList := by
  rw [mind_decideNode labels plan i n idle]
  cases c.question plan i n
  case error => simp [Except.toOption]
  case ok q => exact hq q c.mind

theorem asked_follow (labels : Nat) (plan : Plan) (schedule : List (Nat × Nat)) (idle : c.Idle) :
    asked (outcome (follow labels plan schedule) c).2.mind = asked c.mind ++
      (decisions labels plan schedule c).flatMap fun d => (d.question plan).toOption.toList := by
  induction schedule generalizing c
  case nil => simp [outcome, follow, decisions]
  case cons key schedule hi =>
    obtain ⟨i, n⟩ := key
    have hd := asked_decideNode hq labels plan i n idle
    cases h : decideNode labels plan i n c <;> simp only [outcome, h] at hd
    case error f c' => simp [outcome, follow_cons, decisions, h, hd, Decision.question]
    case ok u c' =>
      obtain ⟨_, hs⟩ := decideNode_ok idle h
      have := hi (hs.idle idle)
      simp only [outcome, follow_cons, decisions, h] at this ⊢
      rw [this, hd]
      simp [Decision.question]

end Asked

-- Decisions that follow a plan over an order of visit, one after the other, each from the labels
-- that the ones before it gave.
structure Sequential (labels : Nat) (plan : Plan) (order : List Nat) (nodes : Nat)
    (ds : List (Decision σ)) : Prop where
  visits  : ds.map key <+: plan.schedule order
  whole   : (∀ d ∈ ds, d.Succeeds labels plan) → ds.map key = plan.schedule order
  calls   : (calls plan ds).map key <+: plan.schedule order
  size    : ∀ d ∈ ds, d.start.pred.size = nodes
  holds   : ∀ earlier d later, ds = earlier ++ d :: later → ∀ n < nodes,
    d.start.pred[n]? = some ((latest plan earlier n).getD (labels + 1))
  range   : ∀ d ∈ ds, ∀ x ∈ d.start.pred, 1 ≤ x ∧ x ≤ labels + 1
  buckets : ∀ d ∈ ds, ∀ x ∈ d.start.pred,
    0 ≤ x - 1 ∧ x - 1 < d.start.bench.augmenter.scratch.cells.size
  decided : ∀ d ∈ ds, d.pass ≠ 0 → ∀ x ∈ d.start.pred, x ≤ labels

section Sequential

variable {order : List Nat} {nodes : Nat}
  (hp : c.pred = Array.replicate nodes ((labels : Int) + 1)) (ho : order.Perm (List.range nodes))
include hp ho

-- In a later pass all nodes have a label.
theorem Chain.decided {earlier : List (Decision σ)} {d : Decision σ}
    (h : Chain labels plan c earlier d.start)
    (hk : (earlier ++ [d]).map key <+: plan.schedule order) (hd : d.pass ≠ 0) {x : Int}
    (hx : x ∈ d.start.pred) : x ≤ labels := by
  refine (h.pred_le hp (fun n hn => ?_) hx).right
  have hm : (0, n) ∈ earlier.map key := by
    refine Plan.first_of_prefix (by simpa using hk) hd ?_
    exact ho.mem_iff.mpr (List.mem_range.mpr hn)
  have ⟨d', hd', he⟩ := List.mem_map.mp hm
  exact ⟨d', hd', (Prod.mk.inj he).right⟩

theorem sequential (idle : c.Idle) (hs : c.bench.augmenter.scratch.cells.size = labels + 1) :
    Sequential labels plan order nodes (decisions labels plan (plan.schedule order) c) := by
  have ends := ends labels plan (plan.schedule order) idle
  constructor
  case visits => exact ends.keys
  case whole => exact whole_of_succeeds idle
  case calls => exact calls_prefix idle
  case size =>
    intro d hd
    have ⟨_, hc, _⟩ := ends.reached hd
    exact hc.size_pred hp
  case holds => exact fun _ _ _ he n hn => (ends.chain he).getElem?_pred hp hn
  case range =>
    intro d hd x hx
    have ⟨_, hc, _⟩ := ends.reached hd
    exact hc.pred_range hp hx
  case buckets =>
    intro d hd x hx
    have ⟨_, hc, _⟩ := ends.reached hd
    have := hc.pred_range hp hx
    have := hc.same.scratch
    omega
  case decided =>
    intro d hd hpass x hx
    have ⟨_, hc, hk⟩ := ends.reached hd
    exact hc.decided hp ho hk hpass hx

end Sequential
end Course
end CollectiveLabeling
