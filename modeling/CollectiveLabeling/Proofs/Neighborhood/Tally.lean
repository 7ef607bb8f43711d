import CollectiveLabeling.Confusion
import CollectiveLabeling.Proofs.Neighborhood
import CollectiveLabeling.Proofs.Sweep

namespace CollectiveLabeling

open Step

namespace Hypergraph

-- The other members of an edge. An edge that is not there has none.
def across (g : Hypergraph) (n e : Int) : List Int :=
  (g.others n e).toOption.getD []

namespace Sound

variable {g : Hypergraph} {labels : Nat} {n e : Int} {es : List Int}

theorem others_eq (h : g.Sound labels) (hi : g.incident n = .ok es) (he : e ∈ es) :
    g.others n e = .ok (g.across n e) := by
  have ⟨ms, ho⟩ := h.others_ok hi he
  simp [across, ho, Except.toOption]

theorem neighbors_eq (h : g.Sound labels) (hi : g.incident n = .ok es) :
    g.neighbors n = .ok (es.flatMap fun e => (g.across n e).map (e, ·)) := by
  have near (es' : List Int) (hs : ∀ e ∈ es', e ∈ es) :
      es'.mapM (fun e => List.map (e, ·) <$> g.others n e) =
        .ok (es'.map fun e => (g.across n e).map (e, ·)) := by
    induction es'
    case nil => rfl
    case cons e es' hi' =>
      rw [List.mapM_cons, h.others_eq hi (hs e (by simp)), hi' fun e he => hs e (by simp [he])]
      rfl
  simp only [neighbors, hi, Attempt.ok_bind, near es fun _ he => he]
  rfl

theorem across_range (h : g.Sound labels) (hi : g.incident n = .ok es) (he : e ∈ es) {m : Int}
    (hm : m ∈ g.across n e) : 0 ≤ m ∧ m < g.nodes.size := by
  have ⟨r, hr, hg⟩ := h.edge_ok hi he
  have others : g.across n e = r.members.filter (· ≠ n) := by
    simp [across, others, Hypergraph.members, hg, Except.toOption]
  rw [others] at hm
  exact h.members r hr m (List.mem_filter.mp hm).left

theorem neighbors_range (h : g.Sound labels) {near : List (Int × Int)} (hi : g.incident n = .ok es)
    (hn : g.neighbors n = .ok near) : ∀ x ∈ near, 0 ≤ x.2 ∧ x.2 < g.nodes.size := by
  intro x hx
  cases hn.symm.trans (h.neighbors_eq hi)
  have ⟨e, he, hx⟩ := List.mem_flatMap.mp hx
  have ⟨m, hm, hx⟩ := List.mem_map.mp hx
  exact hx ▸ h.across_range hi he hm

end Sound

-- The label that a node holds.
def labelOf (pred : Array Int) (m : Int) : Option Int :=
  (lookup pred m).toOption

theorem labelOf_natCast (pred : Array Int) (m : Nat) : labelOf pred m = pred[m]? := by
  simp only [labelOf]
  by_cases h : m < pred.size
  case pos => simp [lookup_natCast h, h, Except.toOption]
  case neg =>
    have none : Index.place? pred.size (m : Int) = none :=
      Index.place?_eq_none_iff.mpr (.inr (by omega))
    simp [lookup, none, Except.toOption, Nat.le_of_not_lt h]

-- Every node holds a label or is marked as undecided by the number above the last label.
structure Labeled (labels nodes : Nat) (pred : Array Int) : Prop where
  size  : pred.size = nodes
  range : ∀ x ∈ pred, 1 ≤ x ∧ x ≤ labels + 1

theorem Labeled.lookup_ok {labels nodes : Nat} {pred : Array Int} (h : Labeled labels nodes pred)
    {m : Int} (nonneg : 0 ≤ m) (lt : m < nodes) :
    ∃ x, lookup pred m = .ok x ∧ 1 ≤ x ∧ x ≤ labels + 1 := by
  obtain ⟨k, rfl⟩ := Int.eq_ofNat_of_zero_le nonneg
  have hk : k < pred.size := by
    have := h.size
    omega
  exact ⟨pred[k], lookup_natCast hk, h.range _ (Array.getElem_mem hk)⟩

theorem Labeled.setIfInBounds {labels nodes : Nat} {pred : Array Int}
    (h : Labeled labels nodes pred) (n : Nat) {label : Int} (one_le : 1 ≤ label)
    (le : label ≤ labels) : Labeled labels nodes (pred.setIfInBounds n label) where
  size  := by simp [h.size]
  range := by
    intro x hx
    cases Array.mem_or_eq_of_mem_setIfInBounds hx
    case inl hx => exact h.range x hx
    case inr he => omega

end Hypergraph

namespace Tally

def count (t : Tally) (bucket : Nat) : Nat :=
  t.cells[bucket]?.getD 0

@[simp]
theorem count_clear (t : Tally) (bucket : Nat) : t.clear.count bucket = 0 := by
  simp only [count, clear, Array.getElem?_map]
  cases t.cells[bucket]? <;> rfl

@[simp]
theorem size_clear (t : Tally) : t.clear.cells.size = t.cells.size := by
  simp [clear]

theorem add_ok {t : Tally} {bucket : Nat} (h : bucket < t.cells.size) :
    ∃ t', add bucket t = .ok ⟨⟩ t' ∧ t'.cells.size = t.cells.size ∧
      ∀ k, t'.count k = t.count k + if bucket = k then 1 else 0 := by
  refine ⟨_, by simp only [add, bind_apply, get_apply, Index.place?_natCast h]; rfl, by simp, ?_⟩
  intro k
  simp only [count, Array.getElem?_modify]
  split
  case isTrue he => subst he; simp [h]
  case isFalse => simp

end Tally

namespace Augmenter

open CollectiveLabeling.Hypergraph (labelOf)

variable {a : Augmenter} {g : Hypergraph} {pred : Array Int} {n e : Int}

-- Labels for which there are cells.
def Countable (pred : Array Int) (ms : List Int) (size : Nat) : Prop :=
  ∀ m ∈ ms, ∃ x : Int, Hypergraph.lookup pred m = .ok x ∧ 1 ≤ x ∧ x ≤ size

theorem countMembers_ok {t : Tally} {ms : List Int} (h : Countable pred ms t.cells.size) :
    ∃ t', countMembers pred ms t = .ok ⟨⟩ t' ∧ t'.cells.size = t.cells.size ∧
      ∀ k : Nat, t'.count k = t.count k + ms.countP (labelOf pred · = some ((k : Int) + 1)) := by
  induction ms generalizing t
  case nil => exact ⟨t, rfl, rfl, by simp⟩
  case cons m ms hi =>
    have ⟨x, hx, one_le, le⟩ := h m (by simp)
    obtain ⟨bucket, rfl⟩ : ∃ b : Nat, x = b + 1 := ⟨(x - 1).toNat, by omega⟩
    have holds : labelOf pred m = some ((bucket : Int) + 1) := by
      simp [labelOf, hx, Except.toOption]
    have lt : bucket < t.cells.size := by omega
    have ⟨t₁, ha, hs, hc⟩ := Tally.add_ok lt
    have ⟨t', hm, hs', hc'⟩ := hi (t := t₁) fun m hm => hs ▸ h m (by simp [hm])
    refine ⟨t', ?_, hs'.trans hs, fun k => ?_⟩
    case refine_1 =>
      simp only [countMembers, List.forM_eq_forM, List.forM_cons, bind_apply, hx, lift_ok] at hm ⊢
      rw [Int.add_sub_cancel, ha]
      exact hm
    case refine_2 =>
      have same : ((bucket : Int) + 1 = (k : Int) + 1) ↔ bucket = k := by omega
      simp only [hc', hc, List.countP_cons, holds, Option.some.injEq, same, decide_eq_true_eq]
      omega

-- The tally of an edge at a node.
def histogram (a : Augmenter) (g : Hypergraph) (pred : Array Int) (n e : Int) : Tally :=
  ((a.tally g pred n e).outcome a.scratch).2

-- The tally is cleared first, so it does not matter what it was.
theorem tally_congr {t t' : Tally} (hs : t.cells.size = t'.cells.size) :
    a.tally g pred n e t = a.tally g pred n e t' := by
  simp [tally, clear_congr hs]

theorem tally_histogram {t : Tally} (ht : t.cells.size = a.scratch.cells.size)
    (h : ∃ t', a.tally g pred n e t = .ok ⟨⟩ t') :
    a.tally g pred n e t = .ok ⟨⟩ (a.histogram g pred n e) := by
  have ⟨t', h⟩ := h
  simp [histogram, outcome, ← tally_congr ht, h]

theorem tally_structured {t : Tally} (hu : a.useStructure = true)
    (ho : g.others n e = .ok (g.across n e)) (h : Countable pred (g.across n e) t.cells.size) :
    ∃ t', a.tally g pred n e t = .ok ⟨⟩ t' ∧
      ∀ k : Nat, t'.count k = (g.across n e).countP (labelOf pred · = some ((k : Int) + 1)) := by
  have countable : Countable pred (g.across n e) t.clear.cells.size := by simpa using h
  have ⟨t', hc, _, count⟩ := countMembers_ok countable
  refine ⟨t', ?_, fun k => by simpa using count k⟩
  simp only [tally, hu, bind_apply, modify_apply, if_true, ho, lift_ok]
  exact hc

theorem tally_unstructured {t : Tally} (hu : a.useStructure = false) (hs : 0 < t.cells.size) :
    ∃ t', a.tally g pred n e t = .ok ⟨⟩ t' := by
  have pos : 0 < t.clear.cells.size := by simpa using hs
  have ⟨t', ha, _⟩ := Tally.add_ok pos
  exact ⟨t', by simpa [tally, hu] using ha⟩

theorem sumOf_countP {α β : Type} (p : β → Bool) (f : α → Nat) (g : α → List β) {xs : List α}
    (h : ∀ x ∈ xs, f x = (g x).countP p) : Confusion.sumOf (xs.map f) = (xs.flatMap g).countP p := by
  induction xs
  case nil => rfl
  case cons x xs hi =>
    have hs := hi fun x hx => h x (by simp [hx])
    simp only [Confusion.sumOf, List.map_cons, List.foldr_cons, List.flatMap_cons,
      List.countP_append] at hs ⊢
    rw [hs, h x (by simp)]

section Sound

variable {labels : Nat} {es : List Int} (hg : g.Sound labels) (hi : g.incident n = .ok es)
  (hl : Hypergraph.Labeled labels g.nodes.size pred) (hs : a.scratch.cells.size = labels + 1)
include hg hi hl hs

theorem countable_across (he : e ∈ es) : Countable pred (g.across n e) a.scratch.cells.size := by
  intro m hm
  have ⟨nonneg, lt⟩ := hg.across_range hi he hm
  have ⟨x, hx, range⟩ := hl.lookup_ok nonneg lt
  exact ⟨x, hx, range.left, by omega⟩

-- On a sound graph every edge at a node can be tallied.
theorem tally_ok (he : e ∈ es) {t : Tally} (ht : t.cells.size = a.scratch.cells.size) :
    a.tally g pred n e t = .ok ⟨⟩ (a.histogram g pred n e) := by
  refine tally_histogram ht ?_
  cases hu : a.useStructure
  case false => exact tally_unstructured hu (by omega)
  case true =>
    have countable := countable_across hg hi hl hs he
    have ⟨t', h, _⟩ := tally_structured hu (hg.others_eq hi he) (ht ▸ countable)
    exact ⟨t', h⟩

-- Together the tallies of the edges at a node count its neighbors by their labels.
theorem sumOf_histogram (hu : a.useStructure = true) (k : Nat) :
    Confusion.sumOf (es.map fun e => (a.histogram g pred n e).count k) =
      (es.flatMap fun e => (g.across n e).map (e, ·)).countP
        (fun x => labelOf pred x.2 = some ((k : Int) + 1)) := by
  refine sumOf_countP _ _ _ fun e he => ?_
  have ⟨t', h, count⟩ := tally_structured hu (hg.others_eq hi he) (countable_across hg hi hl hs he)
  have same := (tally_ok hg hi hl hs he rfl).symm.trans h
  cases same
  rw [count, List.countP_map]
  rfl

end Sound
end Augmenter
end CollectiveLabeling
