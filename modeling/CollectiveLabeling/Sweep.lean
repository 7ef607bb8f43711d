import CollectiveLabeling.Hypergraph

/-!
The order in which the nodes are visited.

The visit is breadth-first, the members of an edge being next to one another. It starts at node zero,
and when a connected part is exhausted the lowest node not yet reached starts the next. Passes over
the order alternate in direction.
-/

namespace CollectiveLabeling.Sweep

-- Takes the untouched nodes among `near`, in order; the rest stays untouched.
def reach : List Int → List Nat → List Nat × List Nat
  | [], untouched => ([], untouched)
  | m :: near, untouched =>
    if 0 ≤ m ∧ m.toNat ∈ untouched then
      let (found, left) := reach near (untouched.erase m.toNat)
      (m.toNat :: found, left)
    else reach near untouched

theorem length_reach (near : List Int) (untouched : List Nat) :
    (reach near untouched).1.length + (reach near untouched).2.length = untouched.length := by
  induction near generalizing untouched
  case nil => simp [reach]
  case cons m near hi =>
    by_cases h : 0 ≤ m ∧ m.toNat ∈ untouched
    case pos =>
      have erased := List.length_erase_of_mem h.right
      have pos := List.length_pos_of_mem h.right
      have rest := hi (untouched.erase m.toNat)
      simp only [reach, h, and_self, if_true, List.length_cons]
      omega
    case neg =>
      simp only [reach, h, if_false]
      exact hi untouched

-- Visits what is pending and all that is reached from it, then starts again at the first node still
-- untouched.
def explore (g : Hypergraph) (untouched pending : List Nat) : Except Fault (List Nat) :=
  match pending, untouched with
  | [], [] => .ok []
  | [], seed :: untouched => explore g untouched [seed]
  | n :: pending, untouched => do
    let near ← g.neighbors n
    let later ← explore g (reach (near.map (·.2)) untouched).2
      (pending ++ (reach (near.map (·.2)) untouched).1)
    return n :: later
termination_by 2 * untouched.length + pending.length
decreasing_by
  · simp only [List.length_cons, List.length_nil]
    omega
  · have := length_reach (near.map (·.2)) untouched
    simp only [List.length_append, List.length_cons]
    omega

def order (g : Hypergraph) : Except Fault (List Nat) :=
  explore g (List.range g.nodes.size) []

-- Forwards on even passes, backwards on odd ones.
def direct {α : Type} (order : List α) (pass : Int) : List α :=
  if pass % 2 = 1 then order.reverse else order

end CollectiveLabeling.Sweep
