import CollectiveLabeling.Labeling
import CollectiveLabeling.Proofs.Hypergraph.Node
import CollectiveLabeling.Proofs.Step

namespace CollectiveLabeling

open Step

namespace Confusion

-- A cell of a table; outside of it there are only zeros.
def cell {side : Nat} (cells : Vector (Vector Nat side) side) (t p : Nat) : Nat :=
  ((cells[t]?).bind (·[p]?)).getD 0

theorem cell_zero (side t p : Nat) :
    cell (Vector.replicate side (Vector.replicate side 0)) t p = 0 := by
  by_cases ht : t < side <;> by_cases hp : p < side <;> simp [cell, ht, hp]

theorem cell_set {side : Nat} (cells : Vector (Vector Nat side) side) (t p : Fin side) (t' p' : Nat) :
    cell (cells.set t ((cells.get t).set p ((cells.get t).get p + 1) p.isLt) t.isLt) t' p' =
      cell cells t' p' + if t' = t ∧ p' = p then 1 else 0 := by
  have get_eq {α : Type} (xs : Vector α side) (i : Fin side) : xs.get i = xs[i.val] := rfl
  by_cases ht : t' = t
  case neg => simp [cell, ht, Ne.symm ht]
  case pos =>
    subst ht
    by_cases hp : p' = p
    case neg => simp [cell, hp, Ne.symm hp, get_eq]
    case pos => simp [cell, hp, get_eq]

@[simp]
theorem count_clear (c : Confusion) (t p : Nat) : c.clear.count t p = 0 :=
  cell_zero c.side t p

theorem count_bump (c : Confusion) (t p : Fin c.side) (t' p' : Nat) :
    (c.bump t p).count t' p' = c.count t' p' + if t' = t ∧ p' = p then 1 else 0 :=
  cell_set c.cells t p t' p'

-- Labels within the table can be counted.
theorem add_ok {c : Confusion} {t p : Nat} (ht : t < c.side) (hp : p < c.side) :
    ∃ c', add t p c = .ok ⟨⟩ c' ∧ c'.side = c.side ∧
      ∀ t' p', c'.count t' p' = c.count t' p' + if t' = t ∧ p' = p then 1 else 0 := by
  refine ⟨c.bump ⟨t, ht⟩ ⟨p, hp⟩, ?_, rfl, fun t' p' => c.count_bump _ _ t' p'⟩
  simp [add, Index.fin?_natCast ht, Index.fin?_natCast hp]

end Confusion

namespace Scene

-- How often a true and a given label meet. Zero is no true label.
def tallied (pairs : List (Int × Int)) (t p : Nat) : Nat :=
  if t = 0 then 0 else pairs.count (↑t, ↑p)

theorem tallied_append (pairs pairs' : List (Int × Int)) (t p : Nat) :
    tallied (pairs ++ pairs') t p = tallied pairs t p + tallied pairs' t p := by
  simp only [tallied]
  split
  case isTrue => rfl
  case isFalse => exact List.count_append

theorem tallied_cons (x y : Int) (pairs : List (Int × Int)) (t p : Nat) :
    tallied ((x, y) :: pairs) t p =
      tallied pairs t p + if 0 < t ∧ x = t ∧ y = p then 1 else 0 := by
  simp only [tallied]
  by_cases ht : t = 0
  case pos => simp [ht]
  case neg =>
    have pos : 0 < t := Nat.pos_of_ne_zero ht
    simp [ht, pos, List.count_cons]

theorem countPairs_ok {labels : Nat} {k : Confusion} (pairs : List (Record × Int))
    (hk : k.side = labels + 1)
    (h : ∀ x ∈ pairs, 0 ≤ x.1.label ∧ x.1.label ≤ labels ∧ 1 ≤ x.2 ∧ x.2 ≤ labels) :
    ∃ k', (pairs.forM fun (r, label) => if 0 < r.label then Confusion.add r.label label else pure ()) k
        = .ok ⟨⟩ k' ∧ k'.side = k.side ∧
      ∀ t p, k'.count t p = k.count t p + tallied (pairs.map (Prod.map Record.label id)) t p := by
  induction pairs generalizing k
  case nil => exact ⟨k, rfl, rfl, by simp [tallied]⟩
  case cons x pairs hi =>
    have ⟨r, label⟩ := x
    have ⟨nonneg, le, one_le, le'⟩ := h (r, label) (by simp)
    have h' := fun x hx => h x (List.mem_cons_of_mem _ hx)
    simp only [List.forM_eq_forM, List.forM_cons, bind_apply, List.map_cons, Prod.map_apply, id,
      tallied_cons] at hi ⊢
    simp only at nonneg le one_le le'
    obtain ⟨t, ht⟩ := Int.eq_ofNat_of_zero_le nonneg
    obtain ⟨p, hp⟩ := Int.eq_ofNat_of_zero_le (by omega : 0 ≤ label)
    by_cases hl : 0 < r.label
    case neg =>
      have ⟨k', hf, hs, hc⟩ := hi hk h'
      refine ⟨k', by simp [hl, hf], hs, fun t' p' => ?_⟩
      rw [hc, if_neg (by omega), Nat.add_zero]
    case pos =>
      have ⟨k₁, ha, hs₁, hc₁⟩ := Confusion.add_ok (c := k) (t := t) (p := p) (by omega) (by omega)
      have ⟨k', hf, hs, hc⟩ := hi (hs₁.trans hk) h'
      rw [← ht, ← hp] at ha
      refine ⟨k', by simp [hl, ha, hf], hs.trans hs₁, fun t' p' => ?_⟩
      have same : (t' = t ∧ p' = p) ↔ (0 < t' ∧ r.label = t' ∧ label = p') := by omega
      rw [hc, hc₁, Nat.add_right_comm, Nat.add_assoc]
      simp only [same]

theorem countFrame_ok {labels : Nat} {k : Confusion} (frame : Frame) (hk : k.side = labels + 1)
    (hl : ∀ r ∈ frame.graph.nodes, 0 ≤ r.label ∧ r.label ≤ labels)
    (hp : ∀ x ∈ frame.pred, 1 ≤ x ∧ x ≤ labels) :
    ∃ k', countFrame frame k.clear = .ok ⟨⟩ k' ∧ k'.side = labels + 1 ∧ ∀ t p,
      k'.count t p = tallied (frame.graph.trueLabels.zip frame.pred.toList) t p := by
  have ⟨k', hf, hs, hc⟩ := countPairs_ok (k := k.clear)
    (frame.graph.nodes.toList.zip frame.pred.toList) hk fun ⟨r, x⟩ hx => by
      have ⟨hr, hx⟩ := List.of_mem_zip hx
      have h₁ := hl r (Array.mem_toList_iff.mp hr)
      have h₂ := hp x (Array.mem_toList_iff.mp hx)
      exact ⟨h₁.left, h₁.right, h₂.left, h₂.right⟩
  exact ⟨k', hf, hs.trans hk, fun t p => by
    simp [hc, Hypergraph.trueLabels, List.zip_map_left]⟩

end Scene
end CollectiveLabeling
