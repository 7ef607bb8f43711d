import CollectiveLabeling.Cliques

namespace CollectiveLabeling.Cliques

variable {near : Nat → List Nat} {vertices clique candidates excluded : List Nat} {v : Nat}

-- Vertices that are next to one another.
structure Clique (near : Nat → List Nat) (vertices clique : List Nat) : Prop where
  inside   : ∀ v ∈ clique, v ∈ vertices
  pairwise : clique.Pairwise fun u v => u ∈ near v

-- A clique with candidates that are next to all of it.
structure Extensible (near : Nat → List Nat) (vertices clique candidates : List Nat) : Prop
    extends Clique near vertices clique where
  candidate : ∀ v ∈ candidates, v ∈ vertices ∧ ∀ u ∈ clique, v ∈ near u

theorem Extensible.cons (h : Extensible near vertices clique candidates) (hv : v ∈ candidates)
    {rest : List Nat} (sub : ∀ w ∈ rest, w ∈ candidates) :
    Extensible near vertices (v :: clique) (rest.filter (near v).contains) where
  inside    := List.forall_mem_cons.mpr ⟨(h.candidate v hv).left, h.inside⟩
  pairwise  := List.pairwise_cons.mpr ⟨(h.candidate v hv).right, h.pairwise⟩
  candidate := by
    intro w hw
    have ⟨mem, next⟩ := List.mem_filter.mp hw
    have ⟨vertex, joined⟩ := h.candidate w (sub w mem)
    exact ⟨vertex, List.forall_mem_cons.mpr ⟨by simpa using next, joined⟩⟩

theorem mem_of_branches (h : v ∈ branches near candidates excluded) : v ∈ candidates := by
  unfold branches at h
  split at h
  case h_1 => cases h
  case h_2 => exact (List.mem_filter.mp h).left

-- What holds while the branches are gone through. There are fewer and fewer candidates, but each branch
-- was one to begin with.
structure Searched (near : Nat → List Nat) (vertices candidates : List Nat)
    (state : List (List Nat) × List Nat × List Nat) : Prop where
  found : ∀ c ∈ state.1, Clique near vertices c
  rest  : ∀ w ∈ state.2.1, w ∈ candidates

theorem clique_of_extend {depth : Nat} (h : Extensible near vertices clique candidates) :
    ∀ c ∈ extend near depth clique candidates excluded, Clique near vertices c := by
  induction depth generalizing clique candidates excluded
  case zero => simp [extend]
  case succ depth hi =>
    rw [extend]
    split
    case isTrue => simpa using h.toClique
    case isFalse =>
      have start : Searched near vertices candidates ([], candidates, excluded) := ⟨by simp, fun _ => id⟩
      refine (List.foldlRecOn (motive := Searched near vertices candidates) _ _ start ?_).found
      rintro ⟨found, rest, excluded⟩ searched v hv
      refine ⟨fun c hc => ?_, fun w hw => searched.rest w (List.mem_of_mem_erase hw)⟩
      cases List.mem_append.mp hc
      case inl old => exact searched.found c old
      case inr new => exact hi (h.cons (mem_of_branches hv) searched.rest) c new

-- A search that finds nothing but cliques, whatever the graph.
def Finder.Sound (find : Finder) : Prop :=
  ∀ near vertices, (∀ u v, u ∈ near v → v ∈ near u) → ∀ c ∈ find near vertices, Clique near vertices c

theorem sound_maximal : Finder.Sound maximal := by
  intro near vertices _
  unfold maximal
  split
  case isTrue => simp
  case isFalse => exact clique_of_extend ⟨⟨by simp, .nil⟩, by simp⟩

end CollectiveLabeling.Cliques
