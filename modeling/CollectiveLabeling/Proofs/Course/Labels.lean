import CollectiveLabeling.Proofs.Course.Run
import CollectiveLabeling.Proofs.Sweep

namespace CollectiveLabeling

theorem Sweep.mem_rounds {order is : List Nat} {i n : Nat} :
    (i, n) ∈ rounds order is ↔ i ∈ is ∧ n ∈ order := by
  have hm (j : Nat) : n ∈ direct order (j : Int) ↔ n ∈ order := (direct_perm order j).mem_iff
  simp only [rounds, List.mem_flatMap, List.mem_map, Prod.mk.injEq]
  constructor
  case mp =>
    rintro ⟨j, hj, _, hn, rfl, rfl⟩
    exact ⟨hj, (hm j).mp hn⟩
  case mpr =>
    rintro ⟨hi, hn⟩
    exact ⟨i, hi, n, (hm i).mpr hn, rfl, rfl⟩

theorem Sweep.length_rounds (order is : List Nat) :
    (rounds order is).length = is.length * order.length := by
  have pass (i : Nat) : (direct order (i : Int)).length = order.length := (direct_perm order i).length_eq
  simp only [rounds, List.length_flatMap, List.length_map, pass, List.map_const', List.sum_replicate_nat]

theorem Plan.mem_schedule {plan : Plan} {order : List Nat} {i n : Nat} :
    (i, n) ∈ plan.schedule order ↔ i < plan.passes ∧ n ∈ order := by
  rw [schedule_eq_rounds, Sweep.mem_rounds, List.mem_range]

theorem Plan.length_schedule (plan : Plan) (order : List Nat) :
    (plan.schedule order).length = plan.passes * order.length := by
  rw [schedule_eq_rounds, Sweep.length_rounds, List.length_range]

-- The first pass comes first, and no later pass has anything of it.
theorem Plan.schedule_eq (plan : Plan) (order : List Nat) : ∃ later,
    plan.schedule order = order.map (0, ·) ++ later ∧ ∀ x ∈ later, x.1 ≠ 0 := by
  have ⟨p, hp⟩ := Nat.exists_eq_add_of_le' plan.passes_pos
  refine ⟨Sweep.rounds order ((List.range p).map Nat.succ), ?_, ?_⟩
  case refine_1 =>
    rw [schedule_eq_rounds, hp, List.range_succ_eq_map]
    rfl
  case refine_2 =>
    intro x hx
    have ⟨_, _, he⟩ := List.mem_map.mp (Sweep.mem_rounds.mp hx).left
    omega

namespace Decision

variable {σ : Type} [Decider σ] {plan : Plan} {ds : List (Decision σ)} {d : Decision σ}

-- All of these decisions got an answer.
def Answered (plan : Plan) (ds : List (Decision σ)) : Prop :=
  ∀ d ∈ ds, ∃ label, d.answer plan = .ok label

theorem Answered.tail (h : Answered plan (d :: ds)) : Answered plan ds :=
  fun d hd => h d (List.mem_cons_of_mem _ hd)

theorem size_foldl_mark (ds : List (Decision σ)) (pred : Array Int) :
    (ds.foldl (mark plan) pred).size = pred.size := by
  induction ds generalizing pred
  case nil => rfl
  case cons d ds hi =>
    rw [List.foldl_cons, hi]
    simp only [mark]
    split <;> simp

theorem latest_cons (h : Answered plan (d :: ds)) (n : Nat) :
    latest plan (d :: ds) n =
      (latest plan ds n).or (if d.node = n then (d.answer plan).toOption else none) := by
  have ⟨label, hl⟩ := h d (by simp)
  simp only [latest, List.reverse_cons, List.find?_append]
  cases hf : ds.reverse.find? (·.node = n)
  case none => by_cases hn : d.node = n <;> simp [hn]
  case some d' =>
    have ⟨label', hl'⟩ := h.tail d' (by simpa using List.mem_of_find?_eq_some hf)
    simp [hl', Except.toOption]

-- A label is that of the latest decision, or the one from before the run.
theorem getElem?_foldl_mark (h : Answered plan ds) (pred : Array Int) {n : Nat} (hn : n < pred.size) :
    (ds.foldl (mark plan) pred)[n]? = (latest plan ds n).or pred[n]? := by
  induction ds generalizing pred
  case nil => simp [latest]
  case cons d ds hi =>
    have ⟨label, hl⟩ := h d (by simp)
    have hs : (mark plan pred d)[n]? = if d.node = n then some label else pred[n]? := by
      simp only [mark, hl, Array.getElem?_setIfInBounds]
      split <;> simp_all
    rw [List.foldl_cons, hi h.tail _ (by simpa [mark, hl] using hn), hs, latest_cons h, hl]
    cases latest plan ds n <;> by_cases he : d.node = n <;> simp [he, Except.toOption]

theorem exists_of_latest {n : Nat} {label : Int} (h : latest plan ds n = some label) :
    ∃ d ∈ ds, d.node = n ∧ d.answer plan = .ok label := by
  have ⟨d, hf, hl⟩ := Option.bind_eq_some_iff.mp h
  have hn := List.find?_some hf
  refine ⟨d, by simpa using List.mem_of_find?_eq_some hf, by simpa using hn, ?_⟩
  cases ha : d.answer plan <;> simp [ha, Except.toOption] at hl
  exact hl ▸ rfl

theorem latest_isSome (h : Answered plan ds) {n : Nat} (hd : ∃ d ∈ ds, d.node = n) :
    ∃ label, latest plan ds n = some label := by
  have ⟨d, hm, hn⟩ := hd
  cases hf : ds.reverse.find? (·.node = n)
  case none =>
    have := List.find?_eq_none.mp hf d (by simpa using hm)
    simp [hn] at this
  case some d' =>
    have ⟨label, hl⟩ := h d' (by simpa using List.mem_of_find?_eq_some hf)
    exact ⟨label, by simp [latest, hf, hl, Except.toOption]⟩

-- A whole schedule has every node in it.
omit [Decider σ] in
theorem exists_decision {order : List Nat} {nodes n : Nat} (ho : order.Perm (List.range nodes))
    (hk : ds.map key = plan.schedule order) (hn : n < nodes) : ∃ d ∈ ds, d.node = n := by
  have hm : (0, n) ∈ ds.map key := by
    rw [hk, Plan.mem_schedule]
    exact ⟨plan.passes_pos, ho.mem_iff.mpr (List.mem_range.mpr hn)⟩
  have ⟨d, hd, he⟩ := List.mem_map.mp hm
  exact ⟨d, hd, (Prod.mk.inj he).right⟩

end Decision

namespace Course.Chain

open Decision

variable {σ : Type} [Decider σ] {c c' : Course σ} {labels nodes : Nat} {plan : Plan}
  {ds : List (Decision σ)} {n : Nat}

theorem answered (h : Chain labels plan c ds c') : Answered plan ds := fun d hd =>
  have ⟨label, ha, _⟩ := h.answers d hd
  ⟨label, ha⟩

theorem latest_range (h : Chain labels plan c ds c') {label : Int}
    (hl : latest plan ds n = some label) : 1 ≤ label ∧ label ≤ labels := by
  have ⟨d, hd, _, ha⟩ := exists_of_latest hl
  have ⟨label', ha', hr⟩ := h.answers d hd
  cases ha.symm.trans ha'
  exact hr

-- From here on the run starts out with all nodes undecided.
variable (hp : c.pred = Array.replicate nodes ((labels : Int) + 1))
include hp

theorem size_pred (h : Chain labels plan c ds c') : c'.pred.size = nodes := by
  rw [h.pred_eq, size_foldl_mark, hp, Array.size_replicate]

-- Every node holds the label of its latest decision and is undecided before the first.
theorem getElem?_pred (h : Chain labels plan c ds c') (hn : n < nodes) :
    c'.pred[n]? = some ((latest plan ds n).getD (labels + 1)) := by
  rw [h.pred_eq, getElem?_foldl_mark h.answered _ (by simpa [hp] using hn), hp]
  cases latest plan ds n <;> simp [hn]

theorem pred_range (h : Chain labels plan c ds c') {x : Int} (hx : x ∈ c'.pred) :
    1 ≤ x ∧ x ≤ labels + 1 := by
  have ⟨n, hn, he⟩ := Array.mem_iff_getElem.mp hx
  have hg := h.getElem?_pred hp (h.size_pred hp ▸ hn)
  rw [Array.getElem?_eq_getElem hn, he] at hg
  cases hl : latest plan ds n <;> simp only [hl, Option.getD, Option.some.injEq] at hg
  case none => omega
  case some label =>
    have := h.latest_range hl
    omega

-- No node is undecided once all of them have had their turn.
theorem pred_le (h : Chain labels plan c ds c') (hd : ∀ n < nodes, ∃ d ∈ ds, d.node = n) {x : Int}
    (hx : x ∈ c'.pred) : 1 ≤ x ∧ x ≤ labels := by
  have ⟨n, hn, he⟩ := Array.mem_iff_getElem.mp hx
  have hn' : n < nodes := h.size_pred hp ▸ hn
  have ⟨label, hl⟩ := latest_isSome h.answered (hd n hn')
  have hg := h.getElem?_pred hp hn'
  rw [Array.getElem?_eq_getElem hn, he, hl] at hg
  cases hg
  exact h.latest_range hl

theorem pred_le_of_schedule (h : Chain labels plan c ds c') {order : List Nat}
    (ho : order.Perm (List.range nodes)) (hk : ds.map key = plan.schedule order) {x : Int}
    (hx : x ∈ c'.pred) : 1 ≤ x ∧ x ≤ labels :=
  h.pred_le hp (fun _ hn => exists_decision ho hk hn) hx

theorem getElem?_pred_of_schedule (h : Chain labels plan c ds c') {order : List Nat}
    (ho : order.Perm (List.range nodes)) (hk : ds.map key = plan.schedule order) (hn : n < nodes) :
    ∃ label, latest plan ds n = some label ∧ c'.pred[n]? = some label := by
  have ⟨label, hl⟩ := latest_isSome h.answered (exists_decision ho hk hn)
  refine ⟨label, hl, ?_⟩
  rw [h.getElem?_pred hp hn, hl]
  rfl

end Course.Chain
end CollectiveLabeling
