import CollectiveLabeling.Proofs.Hypergraph.Join

namespace CollectiveLabeling.Sweep

variable {o q labels size m n : Nat} {g h w : Hypergraph} {tail untouched pending order order' : List Nat}

section Reach

variable (apart : ∀ t ∈ tail, t < o ∨ o + size ≤ t)
include apart

theorem mem_shift_append (lt : m < size) : m + o ∈ untouched.map (· + o) ++ tail ↔ m ∈ untouched := by
  have outside : m + o ∉ tail := fun hm => by
    have := apart _ hm
    omega
  simp [outside]

theorem erase_shift_append (lt : m < size) :
    (untouched.map (· + o) ++ tail).erase (m + o) = (untouched.erase m).map (· + o) ++ tail := by
  induction untouched
  case nil =>
    refine List.erase_of_not_mem fun hm => ?_
    have := apart _ hm
    omega
  case cons n untouched hi =>
    rw [List.map_cons, List.cons_append, List.erase_cons, List.erase_cons]
    by_cases h : n = m
    case pos => simp [h]
    case neg => simp [h, hi]

-- What is reached from a part of a graph is in that part.
theorem reach_shift {near : List Int} (untouched : List Nat) (range : ∀ m ∈ near, 0 ≤ m ∧ m < size) :
    reach (near.map (· + (o : Int))) (untouched.map (· + o) ++ tail) =
      ((reach near untouched).1.map (· + o), (reach near untouched).2.map (· + o) ++ tail) := by
  induction near generalizing untouched
  case nil => rfl
  case cons m near hi =>
    obtain ⟨nonneg, lt⟩ := range m (by simp)
    obtain ⟨k, rfl⟩ := Int.eq_ofNat_of_zero_le nonneg
    have later (untouched : List Nat) := hi untouched fun m hm => range m (by simp [hm])
    have lt : k < size := by omega
    have place : ((k : Int) + o).toNat = k + o := by omega
    have nonneg : (0 : Int) ≤ k + o := by omega
    simp only [List.map_cons, reach, place, nonneg, true_and, mem_shift_append apart lt,
      Int.natCast_nonneg, Int.toNat_natCast, erase_shift_append apart lt, later]
    split <;> rfl

end Reach

-- A visit that sets out in a part of a graph is done with it before it goes on to the rest.
theorem explore_within (tail : List Nat) (within : g.Within o q w) (sound : g.Sound labels) (sound' : w.Sound labels)
    (apart : ∀ t ∈ tail, t < o ∨ o + g.nodes.size ≤ t)
    (inside : ∀ n ∈ pending ++ untouched, n < g.nodes.size)
    (ho : explore g untouched pending = .ok order) :
    explore w (untouched.map (· + o) ++ tail) (pending.map (· + o)) =
      (order.map (· + o) ++ ·) <$> explore w tail [] := by
  induction untouched, pending using explore.induct generalizing order
  case case1 =>
    cases (explore.eq_def g [] []).symm.trans ho
    cases h : explore w tail [] <;> simp [h]
  case case2 seed untouched hi =>
    rw [explore] at ho
    rw [List.map_nil, List.map_cons, List.cons_append, explore]
    exact hi (by simpa using inside) ho
  case case3 n pending untouched hi =>
    rw [explore] at ho
    obtain ⟨near, hn, ho⟩ := Attempt.bind_eq_ok.mp ho
    obtain ⟨later, hl, he⟩ := Attempt.bind_eq_ok.mp ho
    cases he
    have lt := inside n (by simp)
    obtain ⟨_, incident⟩ := sound.incident_ok lt
    have range : ∀ m ∈ near.map Prod.snd, 0 ≤ m ∧ m < g.nodes.size := fun m hm => by
      obtain ⟨x, hx, he⟩ := List.mem_map.mp hm
      exact he ▸ sound.neighbors_range incident hn x hx
    have ends : (near.map (Prod.map (· + (q : Int)) (· + (o : Int)))).map (·.2) =
        (near.map (·.2)).map (· + (o : Int)) := by
      rw [List.map_map, List.map_map]
      rfl
    -- What has just been reached goes from the untouched nodes to the pending ones.
    have moved : ((pending ++ (reach (near.map (·.2)) untouched).1) ++
        (reach (near.map (·.2)) untouched).2).Perm (pending ++ untouched) := by
      simpa using (reach_perm (near.map (·.2)) untouched).append_left pending
    have rest := hi near (fun m hm => inside m (.tail _ (moved.mem_iff.mp hm))) hl
    rw [List.map_cons, explore, within.neighbors sound sound' lt, hn, Attempt.map_ok, Attempt.ok_bind,
      ends, reach_shift apart untouched range, ← List.map_append, rest]
    cases explore w tail [] <;> rfl

-- Two graphs side by side are visited one after the other.
theorem order_join (sound : g.Sound labels) (sound' : h.Sound labels)
    (joined : (g.join h).Sound labels) (ho : Sweep.order g = .ok order)
    (ho' : Sweep.order h = .ok order') :
    Sweep.order (g.join h) = .ok (order ++ order'.map (· + g.nodes.size)) := by
  have range : List.range (g.join h).nodes.size = (List.range g.nodes.size).map (· + 0) ++
      (List.range h.nodes.size).map (· + g.nodes.size) := by
    simp [Hypergraph.join, List.range_add, Nat.add_comm]
  have first := explore_within ((List.range h.nodes.size).map (· + g.nodes.size))
    (Hypergraph.within_join_left sound) sound joined (by simp) (by simp) ho
  have second := explore_within [] (Hypergraph.within_join_right sound) sound' joined
    (by simp) (by simp) ho'
  simp only [List.append_nil, List.map_nil] at first second
  rw [Sweep.order, range, first, second]
  simp [explore]

end CollectiveLabeling.Sweep
