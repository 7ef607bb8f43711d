import CollectiveLabeling.Proofs.Apprentice
import CollectiveLabeling.Proofs.Course.Sequential
import CollectiveLabeling.Proofs.Neighborhood.Tally

namespace CollectiveLabeling

open Step
open CollectiveLabeling.Hypergraph (labelOf)

namespace Apprentice

variable {a b : Apprentice}

theorem memory_onPolicy {x : Step (Perceptron Float32) Unit} (h : onPolicy x a = .ok ⟨⟩ b) :
    b.memory = a.memory := by
  simp only [onPolicy, within] at h
  cases hx : x a.policy <;> simp only [hx] at h <;> cases h
  rfl

-- Whether it learns or is being tested, an apprentice remembers the answer it gives and nothing more.
theorem memory_decide {q : Query} {label : Int} (h : decide q a = .ok label b) :
    b.memory = a.memory.insert q.tag label := by
  unfold decide at h
  have ⟨a', _, hg, h⟩ := bind_eq_ok.mp h
  cases hg
  dsimp only at h
  split at h
  case isTrue => cases h
  case isFalse =>
    have ⟨input, _, hi, h⟩ := bind_eq_ok.mp h
    cases (lift_eq_ok.mp hi).right
    have ⟨predicted, _, hp, h⟩ := bind_eq_ok.mp h
    cases (lift_eq_ok.mp hp).right
    cases ht : a.training <;> cases ho : q.oracle <;> simp only [ht, ho] at h
    case true.some oracle =>
      have ⟨⟨⟩, b', hu, h⟩ := bind_eq_ok.mp h
      cases h
      exact congrArg (·.insert q.tag label) (memory_onPolicy hu)
    all_goals
      cases h
      rfl

end Apprentice

-- A memory that holds the labels of the nodes that are decided, under the tags of these nodes, and
-- nothing else.
def Remembers (labels : Nat) (pred : Array Int) (memory : Std.TreeMap Int Int compare) : Prop :=
  ∀ tag label : Int, memory[tag]? = some label ↔
    ∃ n : Nat, tag = n + 1 ∧ pred[n]? = some label ∧ label ≤ labels

namespace Remembers

variable {labels : Nat} {pred : Array Int} {memory : Std.TreeMap Int Int compare}

theorem empty (labels nodes : Nat) :
    Remembers labels (Array.replicate nodes ((labels : Int) + 1)) ∅ := by
  intro tag label
  simp only [Std.TreeMap.getElem?_emptyc, reduceCtorEq, false_iff]
  intro ⟨n, _, hn, hl⟩
  rw [Array.getElem?_replicate] at hn
  split at hn <;> cases hn
  omega

theorem insert (h : Remembers labels pred memory) {n : Nat} (hn : n < pred.size) {label : Int}
    (hl : label ≤ labels) :
    Remembers labels (pred.setIfInBounds n label) (memory.insert (n + 1) label) := by
  intro tag label'
  rw [Std.TreeMap.getElem?_insert]
  by_cases ht : tag = n + 1
  case pos =>
    subst ht
    simp only [Std.ReflCmp.compare_self, if_true, Option.some.injEq]
    constructor
    case mp =>
      intro he
      exact ⟨n, rfl, by simp [hn, he], he ▸ hl⟩
    case mpr =>
      intro ⟨m, hm, hg, _⟩
      obtain rfl : n = m := by omega
      simpa [hn] using hg
  case neg =>
    have ne : compare ((n : Int) + 1) tag ≠ .eq := fun he => ht (Std.LawfulEqCmp.eq_of_compare he).symm
    simp only [ne, if_false, h tag label']
    have other {m : Nat} (hm : tag = m + 1) : (pred.setIfInBounds n label)[m]? = pred[m]? :=
      Array.getElem?_setIfInBounds_ne (by omega)
    constructor
    case mp => exact fun ⟨m, hm, hg, hl⟩ => ⟨m, hm, (other hm).trans hg, hl⟩
    case mpr => exact fun ⟨m, hm, hg, hl⟩ => ⟨m, hm, (other hm).symm.trans hg, hl⟩

-- What is remembered of a node is its label if it has one.
theorem getElem?_succ (h : Remembers labels pred memory) (n : Nat) :
    memory[(n : Int) + 1]? = pred[n]?.filter (fun label : Int => label ≤ labels) := by
  refine Option.ext fun label => ?_
  rw [h, Option.filter_eq_some_iff, decide_eq_true_eq]
  constructor
  case mp =>
    intro ⟨m, hm, hg⟩
    obtain rfl : n = m := by omega
    exact hg
  case mpr => exact fun hg => ⟨n, rfl, hg⟩

end Remembers

namespace Course

variable {c c' : Course Apprentice} {labels : Nat} {plan : Plan}

theorem Decided.size_pred {i n : Nat} {label : Int} (h : Decided labels plan i n c c' label) :
    c'.pred.size = c.pred.size := by
  have ⟨_, _, _, _, hc⟩ := h.answer
  simp [hc]

theorem Decided.memory {i n : Nat} {label : Int} (h : Decided labels plan i n c c' label) :
    c'.mind.memory = c.mind.memory.insert (n + 1) label := by
  have ⟨q, mind, hq, hd, hc⟩ := h.answer
  have ⟨_, _, _, _, tag⟩ := question_eq_ok.mp hq
  rw [hc, Apprentice.memory_decide hd, ← tag]
  rfl

theorem Decided.remembers {i n : Nat} {label : Int} (h : Decided labels plan i n c c' label)
    (hn : n < c.pred.size) (hr : Remembers labels c.pred c.mind.memory) :
    Remembers labels c'.pred c'.mind.memory := by
  have ⟨_, _, _, _, hc⟩ := h.answer
  have pred : c'.pred = c.pred.setIfInBounds n label := by rw [hc]
  rw [h.memory, pred]
  exact hr.insert hn h.le

theorem Chain.remembers {ds : List (Decision Apprentice)} (h : Chain labels plan c ds c')
    (hn : ∀ d ∈ ds, d.node < c.pred.size) (hr : Remembers labels c.pred c.mind.memory) :
    Remembers labels c'.pred c'.mind.memory := by
  induction h
  case nil => exact hr
  case cons hd _ hi =>
    refine hi (fun d hm => ?_) (hd.remembers (hn _ List.mem_cons_self) hr)
    rw [hd.size_pred]
    exact hn d (by simp [hm])

end Course

-- The conditions of a query for a node with these neighbors.
def conditionsOf (near : List (Int × Int)) : List (Int × String) :=
  near.map fun (_, m) => (m + 1, Course.conditionName)

-- What the memory of an apprentice and the labels of the nodes say about each other when a decision
-- is taken.
structure Decision.Accord (labels : Nat) (plan : Plan) (d : Decision Apprentice)
    (near : List (Int × Int)) (es : List Int) : Prop where
  neighbors : d.start.bench.graph.neighbors d.node = .ok near
  incident  : d.start.bench.graph.incident d.node = .ok es
  labeled   : ∀ x ∈ near, ∃ label, labelOf d.start.pred x.2 = some label ∧
    1 ≤ label ∧ label ≤ labels + 1
  memory    : Remembers labels d.start.pred d.start.mind.memory
  asked     : ∀ q, d.question plan = .ok q → q.conditions = conditionsOf near
  resolved  : d.start.mind.resolve (conditionsOf near) = near.filterMap fun (_, m) =>
    ((labelOf d.start.pred m).filter fun label : Int => label ≤ labels).map (Course.conditionName, ·)
  tallied   : ∀ e ∈ es, ∀ t, t.cells.size = d.start.bench.augmenter.scratch.cells.size →
    d.start.bench.augmenter.tally d.start.bench.graph d.start.pred d.node e t =
      .ok ⟨⟩ (d.start.bench.augmenter.histogram d.start.bench.graph d.start.pred d.node e)
  decided   : plan.useStructure = true → ∀ k < labels, Confusion.sumOf (es.map fun e =>
      (d.start.bench.augmenter.histogram d.start.bench.graph d.start.pred d.node e).count k) =
    (d.start.mind.resolve (conditionsOf near)).count (Course.conditionName, (k : Int) + 1)
  undecided : plan.useStructure = true → Confusion.sumOf (es.map fun e =>
      (d.start.bench.augmenter.histogram d.start.bench.graph d.start.pred d.node e).count labels) =
    (conditionsOf near).countP fun (tag, _) => d.start.mind.memory[tag]?.isNone

theorem Apprentice.resolve_conditionsOf (a : Apprentice) (near : List (Int × Int)) :
    a.resolve (conditionsOf near) =
      near.filterMap fun (_, m) => a.memory[m + 1]?.map (Course.conditionName, ·) := by
  rw [resolve, conditionsOf, List.filterMap_map]
  rfl

namespace Remembers

variable {labels nodes : Nat} {pred : Array Int} {a : Apprentice} {near : List (Int × Int)}

-- Nodes are named by their tags.
theorem getElem?_tag (h : Remembers labels pred a.memory) {m : Int} (nonneg : 0 ≤ m) :
    a.memory[m + 1]? = (labelOf pred m).filter fun label : Int => label ≤ labels := by
  obtain ⟨k, rfl⟩ := Int.eq_ofNat_of_zero_le nonneg
  rw [Hypergraph.labelOf_natCast]
  exact h.getElem?_succ k

variable (h : Remembers labels pred a.memory) (hn : ∀ x ∈ near, 0 ≤ x.2)
include h hn

theorem resolve_eq : a.resolve (conditionsOf near) = near.filterMap fun (_, m) =>
    ((labelOf pred m).filter fun label : Int => label ≤ labels).map (Course.conditionName, ·) := by
  rw [a.resolve_conditionsOf]
  induction near
  case nil => rfl
  case cons x near hi =>
    simp only [List.filterMap_cons, h.getElem?_tag (hn x (by simp)),
      hi fun x hx => hn x (by simp [hx])]

theorem count_resolve {k : Nat} (hk : k < labels) :
    (a.resolve (conditionsOf near)).count (Course.conditionName, (k : Int) + 1) =
      near.countP fun x => labelOf pred x.2 = some ((k : Int) + 1) := by
  rw [h.resolve_eq hn, List.count_filterMap]
  refine List.countP_congr fun x _ => ?_
  have le : (k : Int) + 1 ≤ labels := by omega
  simp [le]

theorem countP_unresolved
    (hl : ∀ x ∈ near, ∃ label, labelOf pred x.2 = some label ∧ 1 ≤ label ∧ label ≤ labels + 1) :
    ((conditionsOf near).countP fun (tag, _) => a.memory[tag]?.isNone) =
      near.countP fun x => labelOf pred x.2 = some ((labels : Int) + 1) := by
  rw [conditionsOf, List.countP_map]
  refine List.countP_congr fun x hx => ?_
  have ⟨label, he, _, le⟩ := hl x hx
  simp only [Function.comp_apply, h.getElem?_tag (hn x hx), he]
  have beyond : label = (labels : Int) + 1 ↔ ¬label ≤ labels := by omega
  by_cases within : label ≤ (labels : Int) <;> simp [beyond, within]

end Remembers

namespace Course

variable {c : Course Apprentice} {labels nodes : Nat} {plan : Plan}

-- All that is needed is that memory and labels agree at this one decision.
theorem accord {d : Decision Apprentice} (sound : d.start.bench.graph.Sound labels)
    (hn : d.node < d.start.bench.graph.nodes.size)
    (labeled : Hypergraph.Labeled labels d.start.bench.graph.nodes.size d.start.pred)
    (scratch : d.start.bench.augmenter.scratch.cells.size = labels + 1)
    (structured : d.start.bench.augmenter.useStructure = plan.useStructure)
    (memory : Remembers labels d.start.pred d.start.mind.memory) :
    ∃ near es, d.Accord labels plan near es := by
  obtain ⟨es, hi⟩ := sound.incident_ok hn
  have near := sound.neighbors_eq hi
  have range := sound.neighbors_range hi near
  have held : ∀ x ∈ es.flatMap fun e => (d.start.bench.graph.across d.node e).map (e, ·),
      ∃ label, labelOf d.start.pred x.2 = some label ∧ 1 ≤ label ∧ label ≤ labels + 1 := by
    intro x hx
    obtain ⟨label, hl, hr⟩ := labeled.lookup_ok (range x hx).left (range x hx).right
    exact ⟨label, by simp [labelOf, hl, Except.toOption], hr⟩
  have nonneg := fun x hx => (range x hx).left
  refine ⟨es.flatMap fun e => (d.start.bench.graph.across d.node e).map (e, ·), es, ?_⟩
  exact {
    neighbors := near
    incident  := hi
    labeled   := held
    memory    := memory
    asked     := fun q hq => by
      obtain ⟨_, _, _, hn, he⟩ := question_eq_ok.mp hq
      cases near.symm.trans hn
      exact he ▸ rfl
    resolved  := memory.resolve_eq nonneg
    tallied   := fun e he t ht => Augmenter.tally_ok sound hi labeled scratch he ht
    decided   := fun hu k hk => by
      rw [memory.count_resolve nonneg hk]
      exact Augmenter.sumOf_histogram sound hi labeled scratch (structured.trans hu) k
    undecided := fun hu => by
      rw [memory.countP_unresolved nonneg held]
      exact Augmenter.sumOf_histogram sound hi labeled scratch (structured.trans hu) labels }

-- From an empty memory on, every decision of a run finds memory and labels in accord.
theorem accord_of_run {order : List Nat} (idle : c.Idle) (sound : c.bench.graph.Sound labels)
    (hp : c.pred = Array.replicate c.bench.graph.nodes.size ((labels : Int) + 1))
    (ho : order.Perm (List.range c.bench.graph.nodes.size))
    (scratch : c.bench.augmenter.scratch.cells.size = labels + 1)
    (structured : c.bench.augmenter.useStructure = plan.useStructure)
    (memory : c.mind.memory = ∅) {d : Decision Apprentice}
    (hd : d ∈ decisions labels plan (plan.schedule order) c) :
    ∃ near es, d.Accord labels plan near es := by
  have ⟨earlier, chain, keys⟩ := (ends labels plan (plan.schedule order) idle).reached hd
  have visited : ∀ d' ∈ earlier ++ [d], d'.node < c.bench.graph.nodes.size := by
    intro d' hd'
    have hk := keys.subset (List.mem_map_of_mem (f := Decision.key) hd')
    exact List.mem_range.mp (ho.mem_iff.mp (Plan.mem_schedule.mp hk).right)
  have same := chain.same
  have size := same.size
  have remembers : Remembers labels c.pred c.mind.memory := by
    rw [hp, memory]
    exact .empty labels _
  refine accord (sound.of_costs same.costs same.edges same.adjacency) (size ▸ visited d (by simp)) ?labeled
    (same.scratch.trans scratch) (same.structured.trans structured) ?remembers
  case labeled => exact size ▸ ⟨chain.size_pred hp, fun x hx => chain.pred_range hp hx⟩
  case remembers =>
    refine chain.remembers (fun d' hd' => ?_) remembers
    simpa [hp] using visited d' (by simp [hd'])

end Course
end CollectiveLabeling
