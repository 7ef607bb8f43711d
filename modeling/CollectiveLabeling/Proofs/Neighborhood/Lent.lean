import CollectiveLabeling.Proofs.Hypergraph.Within

namespace CollectiveLabeling.Augmenter

open Step

variable {a b : Augmenter} {g h : Hypergraph} {pred pred' : Array Int} {o q labels n : Nat}

-- The labels of the nodes of a part are found in the whole.
def Found (o nodes : Nat) (pred pred' : Array Int) : Prop :=
  ∀ n < nodes, pred'[n + o]? = pred[n]?

theorem found_replicate {nodes nodes' : Nat} (le : nodes + o ≤ nodes') (label : Int) :
    Found o nodes (Array.replicate nodes label) (Array.replicate nodes' label) := fun n hn => by
  have lt : n + o < nodes' := by omega
  rw [Array.getElem?_replicate, Array.getElem?_replicate, if_pos hn, if_pos lt]

theorem countMembers_found (found : Found o g.nodes.size pred pred') {ms : List Int}
    (range : ∀ m ∈ ms, 0 ≤ m ∧ m < g.nodes.size) :
    countMembers pred' (ms.map (· + (o : Int))) = countMembers pred ms := by
  induction ms
  case nil => rfl
  case cons m ms hi =>
    have ⟨nonneg, lt⟩ := range m (by simp)
    obtain ⟨k, rfl⟩ := Int.eq_ofNat_of_zero_le nonneg
    have same : Hypergraph.lookup pred' ((k : Int) + o) = Hypergraph.lookup pred k := by
      rw [← Int.natCast_add, Hypergraph.lookup_natCast_eq, Hypergraph.lookup_natCast_eq,
        found k (by omega)]
    simp only [countMembers, List.forM_eq_forM, List.map_cons, List.forM_cons, same] at hi ⊢
    rw [hi fun m hm => range m (by simp [hm])]

section Within

variable (w : g.Within o q h) (sound : g.Sound labels) (structured : b.useStructure = a.useStructure)
  (found : Found o g.nodes.size pred pred')
include w sound structured found

-- An edge of a part has the same tally in the whole.
theorem tally_within {es : List Int} (hi : g.incident n = .ok es) {e : Nat} (he : (e : Int) ∈ es) :
    b.tally h pred' (n + o : Nat) (e + q : Nat) = a.tally g pred n e := by
  have ⟨_, lt⟩ := sound.incident_range hi he
  have others : h.others (n + o : Nat) (e + q : Nat) = .ok ((g.across n e).map (· + (o : Int))) := by
    rw [w.others (by omega), sound.others_eq hi he]
    rfl
  simp only [tally, structured, others, sound.others_eq hi he]
  cases a.useStructure
  case false => rfl
  case true =>
    have count := countMembers_found found fun m hm => sound.across_range hi he hm
    funext t
    simp only [if_true, bind_apply, modify_apply, lift_ok, count]

variable (space : b.space = a.space)
include space

theorem lend_within {es : List Int} (hi : g.incident n = .ok es) {e : Nat} (he : (e : Int) ∈ es) :
    b.lend h pred' (n + o : Nat) (e + q : Nat) = a.lend g pred n e := by
  have ⟨_, lt⟩ := sound.incident_range hi he
  have ⟨r, _, edge⟩ := sound.edge_ok hi he
  have edge' : h.edge (e + q : Nat) = .ok (r.shift o) := by
    rw [w.edge (by omega), edge]
    rfl
  simp only [lend, tally_within w sound structured found hi he, edge, edge', space]
  rfl

variable (hn : n < g.nodes.size)
include hn

theorem gather_within : b.gather h pred' (n + o : Nat) = a.gather g pred n := by
  have ⟨es, hi⟩ := sound.incident_ok hn
  have lends (es' : List Int) (hs : ∀ e ∈ es', e ∈ es) :
      (es'.map (· + (q : Int))).mapM (b.lend h pred' (n + o : Nat)) = es'.mapM (a.lend g pred n) := by
    induction es'
    case nil => rfl
    case cons e es' hi' =>
      have ⟨nonneg, _⟩ := sound.incident_range hi (hs e (by simp))
      obtain ⟨k, rfl⟩ := Int.eq_ofNat_of_zero_le nonneg
      have lend := lend_within w sound structured found space hi (hs k (by simp))
      rw [Int.natCast_add k] at lend
      rw [List.map_cons, List.mapM_cons, List.mapM_cons, lend, hi' fun e he => hs e (by simp [he])]
  simp only [gather, w.incident hn, hi, Attempt.map_ok]
  funext t
  simp only [bind_apply, lift_ok, lends es fun _ he => he]

-- What the edges at a node lend it only depends on the part of the graph that it is in.
theorem lent_within (scratch : b.scratch.cells.size = a.scratch.cells.size) :
    b.lent h pred' (n + o : Nat) = a.lent g pred n := by
  rw [lent, lent, gather_within w sound structured found space hn, gather_tally_congr scratch]

end Within
end CollectiveLabeling.Augmenter
