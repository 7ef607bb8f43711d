import CollectiveLabeling.Proofs.Course.Part
import CollectiveLabeling.Proofs.Sweep.Join

namespace CollectiveLabeling

open Step

namespace Sweep

variable {α : Type} {xs ys : List α} {i : Int}

theorem direct_append_of_odd (odd : i % 2 = 1) :
    direct (xs ++ ys) i = direct ys i ++ direct xs i := by
  simp [direct, odd]

theorem direct_append_of_even (even : ¬i % 2 = 1) :
    direct (xs ++ ys) i = direct xs i ++ direct ys i := by
  simp [direct, even]

theorem direct_map {β : Type} (f : α → β) (xs : List α) (i : Int) :
    direct (xs.map f) i = (direct xs i).map f := by
  simp only [direct]
  split
  case isTrue => exact List.map_reverse.symm
  case isFalse => rfl

end Sweep

namespace Course

variable {a a' b b' w : Course Apprentice} {labels l r q i n : Nat} {plan : Plan} {label : Int}
  {order order' : List Nat} {schedule : List (Nat × Nat)}

-- A course on two graphs side by side, together with a course on each of them.
structure Split (labels l r q : Nat) (a b w : Course Apprentice) : Prop where
  left       : a.Part labels 0 0 w
  right      : b.Part labels l q w
  size_left  : a.bench.graph.nodes.size = l
  size_right : b.bench.graph.nodes.size = r
  size       : w.bench.graph.nodes.size = l + r

namespace Split

section Decided

variable (h : Split labels l r q a b w)
include h

theorem left_decided (hn : n < l) (hd : Decided labels plan i n a a' label) :
    ∃ w', decideNode labels plan i n w = .ok ⟨⟩ w' ∧ Split labels l r q a' b w' := by
  have hn : n < a.bench.graph.nodes.size := h.size_left ▸ hn
  have ⟨w', hd'⟩ := h.left.decided hn rfl hd
  have moved := hd.moved h.left.ready.testing
  have moved' := hd'.moved h.left.ready'.testing
  refine ⟨w', hd'.decideNode_eq h.left.ready'.idle, ?_⟩
  exact {
    left       := h.left.both hn hd hd'
    right      := h.right.aside (.inl (h.size_left ▸ hn)) hd'
    size_left  := moved.size.trans h.size_left
    size_right := h.size_right
    size       := moved'.size.trans h.size }

theorem right_decided (hn : n < r) (hd : Decided labels plan i n b b' label) :
    ∃ w', decideNode labels plan i (n + l) w = .ok ⟨⟩ w' ∧ Split labels l r q a b' w' := by
  have hn : n < b.bench.graph.nodes.size := h.size_right ▸ hn
  have ⟨w', hd'⟩ := h.right.decided hn rfl hd
  have moved := hd.moved h.right.ready.testing
  have moved' := hd'.moved h.left.ready'.testing
  refine ⟨w', hd'.decideNode_eq h.left.ready'.idle, ?_⟩
  exact {
    left       := h.left.aside (.inr (by have := h.size_left; omega)) hd'
    right      := h.right.both hn hd hd'
    size_left  := h.size_left
    size_right := moved.size.trans h.size_right
    size       := moved'.size.trans h.size }

end Decided

section Follow

variable (h : Split labels l r q a b w)
include h

theorem follow_left (hn : ∀ key ∈ schedule, key.2 < l)
    (hf : follow labels plan schedule a = .ok ⟨⟩ a') :
    ∃ w', follow labels plan schedule w = .ok ⟨⟩ w' ∧ Split labels l r q a' b w' := by
  have ⟨w', hw, split⟩ := follow_lift (R := (Split labels l r q · b ·)) (f := id)
    (fun _ _ h => h.left.ready.idle) (fun i n hk _ _ _ _ h => h.left_decided (hn (i, n) hk)) h hf
  exact ⟨w', by simpa using hw, split⟩

theorem follow_right (hn : ∀ key ∈ schedule, key.2 < r)
    (hf : follow labels plan schedule b = .ok ⟨⟩ b') :
    ∃ w', follow labels plan (schedule.map fun (i, n) => (i, n + l)) w = .ok ⟨⟩ w' ∧
      Split labels l r q a b' w' :=
  follow_lift (R := (Split labels l r q a · ·)) (f := (· + l))
    (fun _ _ h => h.right.ready.idle) (fun i n hk _ _ _ _ h => h.right_decided (hn (i, n) hk)) h hf

variable (hl : ∀ n ∈ order, n < l) (hr : ∀ n ∈ order', n < r)
include hl hr

-- A pass forwards goes through the left graph first, one backwards through the right one.
theorem follow_pass (ha : follow labels plan ((Sweep.direct order i).map (i, ·)) a = .ok ⟨⟩ a')
    (hb : follow labels plan ((Sweep.direct order' i).map (i, ·)) b = .ok ⟨⟩ b') :
    ∃ w', follow labels plan ((Sweep.direct (order ++ order'.map (· + l)) i).map (i, ·)) w =
      .ok ⟨⟩ w' ∧ Split labels l r q a' b' w' := by
  have left : ∀ key ∈ (Sweep.direct order i).map (i, ·), key.2 < l := by
    intro key hk
    have ⟨n, hn, he⟩ := List.mem_map.mp hk
    exact he ▸ hl n ((Sweep.direct_perm order i).mem_iff.mp hn)
  have right : ∀ key ∈ (Sweep.direct order' i).map (i, ·), key.2 < r := by
    intro key hk
    have ⟨n, hn, he⟩ := List.mem_map.mp hk
    exact he ▸ hr n ((Sweep.direct_perm order' i).mem_iff.mp hn)
  have shifted : (Sweep.direct (order'.map (· + l)) i).map (i, ·) =
      ((Sweep.direct order' i).map (i, ·)).map fun (i, n) => (i, n + l) := by
    rw [Sweep.direct_map, List.map_map, List.map_map]
    rfl
  by_cases odd : (i : Int) % 2 = 1
  case pos =>
    have ⟨w₁, hw₁, split⟩ := h.follow_right right hb
    have ⟨w', hw', split'⟩ := split.follow_left left ha
    refine ⟨w', ?_, split'⟩
    rw [Sweep.direct_append_of_odd odd, List.map_append, shifted]
    exact follow_append_eq_ok.mpr ⟨w₁, hw₁, hw'⟩
  case neg =>
    have ⟨w₁, hw₁, split⟩ := h.follow_left left ha
    have ⟨w', hw', split'⟩ := split.follow_right right hb
    refine ⟨w', ?_, split'⟩
    rw [Sweep.direct_append_of_even odd, List.map_append, shifted]
    exact follow_append_eq_ok.mpr ⟨w₁, hw₁, hw'⟩

end Follow

theorem follow_rounds (h : Split labels l r q a b w) (hl : ∀ n ∈ order, n < l)
    (hr : ∀ n ∈ order', n < r) {is : List Nat}
    (ha : follow labels plan (Sweep.rounds order is) a = .ok ⟨⟩ a')
    (hb : follow labels plan (Sweep.rounds order' is) b = .ok ⟨⟩ b') :
    ∃ w', follow labels plan (Sweep.rounds (order ++ order'.map (· + l)) is) w = .ok ⟨⟩ w' ∧
      Split labels l r q a' b' w' := by
  induction is generalizing a b w
  case nil =>
    cases ha
    cases hb
    exact ⟨w, rfl, h⟩
  case cons i is hi =>
    have ⟨a₁, ha₁, ha'⟩ := follow_append_eq_ok.mp ha
    have ⟨b₁, hb₁, hb'⟩ := follow_append_eq_ok.mp hb
    have ⟨w₁, hw₁, split⟩ := h.follow_pass hl hr ha₁ hb₁
    have ⟨w', hw', split'⟩ := hi split ha' hb'
    exact ⟨w', follow_append_eq_ok.mpr ⟨w₁, hw₁, hw'⟩, split'⟩

theorem follow_schedule (h : Split labels l r q a b w) (hl : ∀ n ∈ order, n < l)
    (hr : ∀ n ∈ order', n < r) (ha : follow labels plan (plan.schedule order) a = .ok ⟨⟩ a')
    (hb : follow labels plan (plan.schedule order') b = .ok ⟨⟩ b') :
    ∃ w', follow labels plan (plan.schedule (order ++ order'.map (· + l))) w = .ok ⟨⟩ w' ∧
      Split labels l r q a' b' w' := by
  rw [Plan.schedule_eq_rounds] at ha hb ⊢
  exact h.follow_rounds hl hr ha hb

-- The labels are those of the left graph and then those of the right one.
theorem pred_eq (h : Split labels l r q a b w) : w.pred = a.pred ++ b.pred := by
  have size := h.left.ready.labeled.size.trans h.size_left
  refine Array.ext_getElem? fun n => ?_
  rw [Array.getElem?_append, size]
  by_cases hn : n < l
  case pos => rw [if_pos hn, ← h.left.pred n (h.size_left ▸ hn), Nat.add_zero]
  case neg =>
    rw [if_neg hn]
    by_cases hr : n - l < r
    case pos =>
      rw [← h.right.pred (n - l) (h.size_right ▸ hr), Nat.sub_add_cancel (by omega)]
    case neg =>
      have out : w.pred.size ≤ n := by
        rw [h.left.ready'.labeled.size, h.size]
        omega
      have out' : b.pred.size ≤ n - l := by
        rw [h.right.ready.labeled.size, h.size_right]
        omega
      rw [Array.getElem?_eq_none out, Array.getElem?_eq_none out']

end Split
end Course
end CollectiveLabeling
