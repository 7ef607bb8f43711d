import CollectiveLabeling.Proofs.Neighborhood.Aligned
import CollectiveLabeling.Proofs.Neighborhood.Tally

namespace CollectiveLabeling

open Step

-- Where a bucket is moved to, if it can be moved.
def FeatureSpace.moved (s : FeatureSpace) (bucket label : Int) : Int :=
  (s.relocate bucket label).toOption.getD bucket

theorem FeatureSpace.relocate_eq_moved {s : FeatureSpace} {bucket : Int} (h : s.Aligned bucket)
    (label : Int) : s.relocate bucket label = .ok (s.moved bucket label) := by
  simp [moved, relocate, h, Except.toOption]

namespace Tally

theorem zipIdx_cells (t : Tally) :
    t.cells.toList.zipIdx = (List.range t.cells.size).map fun k => (t.count k, k) := by
  refine List.ext_getElem (by simp) fun k hk _ => ?_
  have lt : k < t.cells.size := by simpa using hk
  simp [count, lt]

-- The buckets that occur are those with a count.
theorem occurring_eq (t : Tally) : t.occurring = (List.range t.cells.size).filterMap fun k =>
    if t.count k = 0 then none else some ((k : Int), t.count k) := by
  rw [occurring, zipIdx_cells, List.filter_map, List.map_map, ← List.filterMap_eq_map,
    List.filterMap_filter]
  refine congrArg (List.filterMap · _) (funext fun k => ?_)
  by_cases h : t.count k = 0 <;> simp [h]

-- A single occurrence in one bucket.
theorem occurring_eq_singleton {t : Tally} {bucket : Nat} (lt : bucket < t.cells.size)
    (count : ∀ k : Nat, t.count k = if bucket = k then 1 else 0) : t.occurring = [((bucket : Int), 1)] := by
  have only (size : Nat) : ((List.range size).filterMap fun k =>
      if t.count k = 0 then none else some ((k : Int), t.count k)) =
        if bucket < size then [((bucket : Int), 1)] else [] := by
    induction size
    case zero => rfl
    case succ size hi =>
      rw [List.range_succ, List.filterMap_append, hi, List.filterMap_cons, List.filterMap_nil, count]
      by_cases last : bucket = size
      case pos => simp [last]
      case neg =>
        have same : bucket < size + 1 ↔ bucket < size := by omega
        simp [last, same]
  rw [occurring_eq, only, if_pos lt]

theorem add_eq_ok {t t' : Tally} {bucket : Int} (h : add bucket t = .ok ⟨⟩ t') :
    t'.total = t.total + 1 ∧ t'.last = bucket := by
  cases hp : Index.place? t.cells.size bucket <;> simp [add, hp] at h
  case some => exact h ▸ ⟨rfl, rfl⟩

-- The total and the last bucket tell whether at most one bucket occurs, and which.
structure Plain (t : Tally) : Prop where
  none : t.total = 0 → t.occurring = []
  one  : t.total = 1 → t.occurring = [(t.last, 1)]

end Tally

namespace Augmenter

open CollectiveLabeling.Hypergraph (labelOf)

variable {a : Augmenter} {g : Hypergraph} {pred : Array Int} {n e : Int} {labels : Nat}

-- How many seats of an edge are taken by other nodes that hold a label.
def seats (pred : Array Int) (n : Int) (edge : Record) (label : Int) : Nat :=
  edge.members.countP fun m => m ≠ n ∧ labelOf pred m = some label

-- What an edge lends a node: a copy of each feature for each label that is held at the edge, moved to
-- the bucket of the label and with its value times the number of seats at which it is held. A label that
-- is held once leaves the value as it is. Labels count from one, buckets from zero.
def share (a : Augmenter) (labels : Nat) (pred : Array Int) (n : Int) (edge : Record) : List Feature :=
  edge.visits.flatMap fun f =>
    if a.useStructure then
      (List.range (labels + 1)).filterMap fun (k : Nat) =>
        if seats pred n edge (k + 1) = 0 then none
        else if seats pred n edge (k + 1) = 1 then some ⟨f.value, a.space.moved f.bucket k⟩
        else some ⟨f.value * Float.ofNat (seats pred n edge (k + 1)), a.space.moved f.bucket k⟩
    else [⟨f.value, a.space.moved f.bucket 0⟩]

theorem share_of_alone {edge : Record} (structured : a.useStructure = true)
    (alone : ∀ m ∈ edge.members, m = n) : a.share labels pred n edge = [] := by
  have none (label : Int) : seats pred n edge label = 0 := by
    refine List.countP_eq_zero.mpr fun m hm => ?_
    simp [alone m hm]
  simp [share, structured, none]

theorem move_aligned {space : FeatureSpace} {f : Feature} (h : space.Aligned f.bucket) (bucket : Int)
    (count : Nat) : move space f bucket count = .ok ⟨weigh f.value count, space.moved f.bucket bucket⟩ := by
  simp [move, FeatureSpace.relocate_eq_moved h]

-- That a single occurrence is dealt with apart makes no difference.
theorem copies_plain {space : FeatureSpace} {t : Tally} (plain : t.Plain) {visits : List Feature}
    (aligned : ∀ f ∈ visits, space.Aligned f.bucket) : copies space t visits =
      .ok (visits.flatMap fun f => t.occurring.map fun x =>
        ⟨weigh f.value x.2, space.moved f.bucket x.1⟩) := by
  have moved (f : Feature) (hf : f ∈ visits) (xs : List (Int × Nat)) :
      xs.mapM (fun x => move space f x.1 x.2) =
        .ok (xs.map fun x => ⟨weigh f.value x.2, space.moved f.bucket x.1⟩) :=
    Attempt.mapM_eq_ok fun x _ => move_aligned (aligned f hf) x.1 x.2
  simp only [copies]
  split
  case isTrue none => simp [plain.none none]
  case isFalse =>
    split
    case isTrue one =>
      have singly := Attempt.mapM_eq_ok fun f hf => move_aligned (aligned f hf) t.last 1
      rw [singly, plain.one one, List.map_eq_flatMap]
      rfl
    case isFalse =>
      have group := Attempt.mapM_eq_ok fun f hf => moved f hf t.occurring
      rw [group, Attempt.map_ok, List.flatMap_def]

theorem countMembers_eq_ok {t t' : Tally} {ms : List Int} (h : countMembers pred ms t = .ok ⟨⟩ t') :
    t'.total = t.total + ms.length ∧ ∀ m, ms = [m] → ∃ label, Hypergraph.lookup pred m = .ok label ∧
      t'.last = label - 1 := by
  induction ms generalizing t
  case nil => cases h; simp
  case cons m ms hi =>
    simp only [countMembers, List.forM_eq_forM, List.forM_cons] at h hi
    obtain ⟨_, t₁, first, rest⟩ := bind_eq_ok.mp h
    obtain ⟨label, _, found, added⟩ := bind_eq_ok.mp first
    obtain ⟨holds, same⟩ := lift_eq_ok.mp found
    cases same
    obtain ⟨total, last⟩ := Tally.add_eq_ok added
    obtain ⟨total', _⟩ := hi rest
    refine ⟨by simp only [total', total, List.length_cons]; omega, fun m' single => ?_⟩
    cases single
    cases rest
    exact ⟨label, holds, last⟩

-- What the tally of an edge says about it.
theorem tally_edge {t : Tally} {edge : Record} (he : g.edge e = .ok edge)
    (countable : Countable pred (edge.members.filter (· ≠ n)) (labels + 1))
    (size : t.cells.size = labels + 1) :
    ∃ t', a.tally g pred n e t = .ok ⟨⟩ t' ∧ t'.cells.size = labels + 1 ∧ t'.Plain ∧
      ∀ k : Nat, t'.count k =
        if a.useStructure then seats pred n edge (k + 1) else if 0 = k then 1 else 0 := by
  have size' : t.clear.cells.size = labels + 1 := by simpa using size
  cases hu : a.useStructure
  case false =>
    have pos : 0 < t.clear.cells.size := by omega
    obtain ⟨t', added, cells, count⟩ := Tally.add_ok pos
    obtain ⟨total, last⟩ := Tally.add_eq_ok added
    simp only [Tally.count_clear, Nat.zero_add] at count
    have one : t'.occurring = [(t'.last, 1)] := last ▸ Tally.occurring_eq_singleton (by omega) count
    refine ⟨t', by simpa [tally, hu] using added, by omega, ⟨fun none => ?_, fun _ => one⟩, ?_⟩
    case refine_1 => simp [Tally.clear, none] at total
    case refine_2 => simpa using count
  case true =>
    have others : g.others n e = .ok (edge.members.filter (· ≠ n)) := by
      simp [Hypergraph.others, Hypergraph.members, he]
    obtain ⟨t', counted, cells, count⟩ := countMembers_ok (t := t.clear) (size' ▸ countable)
    obtain ⟨total, last⟩ := countMembers_eq_ok counted
    have total : t'.total = (edge.members.filter (· ≠ n)).length := by simpa [Tally.clear] using total
    simp only [Tally.count_clear, Nat.zero_add] at count
    refine ⟨t', ?_, by omega, ⟨fun none => ?_, fun one => ?_⟩, fun k => ?_⟩
    case refine_1 =>
      simp only [tally, hu, bind_apply, modify_apply, if_true, others, lift_ok]
      exact counted
    case refine_2 =>
      have empty := List.eq_nil_of_length_eq_zero (total.symm.trans none)
      have zero (k : Nat) : t'.count k = 0 := by rw [count, empty, List.countP_nil]
      simp [Tally.occurring_eq, zero]
    case refine_3 =>
      obtain ⟨m, single⟩ := List.length_eq_one_iff.mp (total.symm.trans one)
      obtain ⟨x, found, one_le, le⟩ := countable m (by rw [single]; simp)
      obtain ⟨label, found', last⟩ := last m single
      cases found.symm.trans found'
      obtain ⟨bucket, rfl⟩ : ∃ b : Nat, x = b + 1 := ⟨(x - 1).toNat, by omega⟩
      rw [Int.add_sub_cancel] at last
      rw [last]
      refine Tally.occurring_eq_singleton (by omega) fun k => ?_
      have same : ((bucket : Int) + 1 = (k : Int) + 1) ↔ bucket = k := by omega
      rw [count, single]
      simp [List.countP_cons, labelOf, found, Except.toOption, same]
    case refine_4 =>
      simp only [count, if_true, seats, List.countP_filter]
      refine List.countP_congr fun m _ => ?_
      simp [and_comm]

theorem lend_eq {t : Tally} {edge : Record} (he : g.edge e = .ok edge)
    (countable : Countable pred (edge.members.filter (· ≠ n)) (labels + 1))
    (aligned : ∀ f ∈ edge.visits, a.space.Aligned f.bucket) (size : t.cells.size = labels + 1) :
    ∃ t', a.lend g pred n e t = .ok (a.share labels pred n edge) t' ∧ t'.cells.size = labels + 1 := by
  have ⟨t', ht, size', plain, count⟩ := tally_edge (a := a) he countable size
  refine ⟨t', ?_, size'⟩
  have same : (edge.visits.flatMap fun f => t'.occurring.map fun x =>
      (⟨weigh f.value x.2, a.space.moved f.bucket x.1⟩ : Feature)) = a.share labels pred n edge := by
    refine congrArg (List.flatMap · _) (funext fun f => ?_)
    cases hu : a.useStructure
    case false =>
      simp only [hu, Bool.false_eq_true, if_false] at count ⊢
      rw [Tally.occurring_eq_singleton (by omega) count]
      rfl
    case true =>
      simp only [hu, if_true] at count ⊢
      rw [Tally.occurring_eq, List.map_filterMap, size']
      refine congrArg (List.filterMap · _) (funext fun k => ?_)
      rw [count]
      by_cases none : seats pred n edge (k + 1) = 0
      case pos => simp [none]
      case neg => by_cases once : seats pred n edge (k + 1) = 1 <;> simp [none, once, weigh]
  rw [lend, bind_ok ht]
  refine (bind_ok rfl).trans <| (bind_ok (lift_eq_ok.mpr ⟨he, rfl⟩)).trans ?_
  rw [copies_plain plain aligned, same]
  rfl

theorem lent_eq {es : List Int} {edges : List Record} (hi : g.incident n = .ok es)
    (he : es.mapM g.edge = .ok edges)
    (countable : ∀ edge ∈ edges, Countable pred (edge.members.filter (· ≠ n)) (labels + 1))
    (aligned : ∀ edge ∈ edges, ∀ f ∈ edge.visits, a.space.Aligned f.bucket)
    (size : a.scratch.cells.size = labels + 1) :
    a.lent g pred n = .ok (edges.flatMap (a.share labels pred n)) := by
  have lends {t : Tally} (size : t.cells.size = labels + 1) : ∃ t',
      es.mapM (a.lend g pred n) t = .ok (edges.map (a.share labels pred n)) t' := by
    clear hi
    induction es generalizing edges t
    case nil =>
      cases he
      exact ⟨t, rfl⟩
    case cons e es hi =>
      rw [List.mapM_cons] at he
      have ⟨edge, first, he⟩ := Attempt.bind_eq_ok.mp he
      have ⟨rest, hr, he⟩ := Attempt.bind_eq_ok.mp he
      cases he
      have ⟨t₁, lend, size₁⟩ := lend_eq (a := a) first (countable edge (by simp)) (aligned edge (by simp)) size
      have ⟨t', lends⟩ := hi hr (fun edge he => countable edge (by simp [he]))
        (fun edge he => aligned edge (by simp [he])) size₁
      refine ⟨t', ?_⟩
      rw [List.mapM_cons, bind_ok lend, bind_ok lends]
      rfl
  have ⟨t', lends⟩ := lends size
  simp only [lent, outcome, gather, hi, lift, bind_apply, pure_apply, lends]
  rfl

end Augmenter
end CollectiveLabeling
