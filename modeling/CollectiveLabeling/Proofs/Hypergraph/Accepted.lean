import CollectiveLabeling.Episode
import CollectiveLabeling.Proofs.Hypergraph.Node
import CollectiveLabeling.Proofs.Step

namespace CollectiveLabeling

-- What every graph of an accepted episode satisfies. None of it depends on the features of nodes.
structure Hypergraph.Sound (g : Hypergraph) (labels : Nat) : Prop where
  label    : ∀ r ∈ g.nodes, 0 ≤ r.label ∧ r.label ≤ labels
  members  : ∀ r ∈ g.edges, ∀ m ∈ r.members, 0 ≤ m ∧ m < g.nodes.size
  size     : g.adjacency.size = g.nodes.size
  incident : ∀ es ∈ g.adjacency, ∀ e ∈ es, 0 ≤ e ∧ e < g.edges.size

namespace Episode

-- The records that have been sorted so far.
structure Sorted.Holds (s : Sorted) (bound : Option Int) (records : List Record) : Prop where
  records : s.nodes.toList ++ s.edges.toList = records
  nodes   : ∀ r ∈ s.nodes, r.isEdge = false ∧ labelAllowed bound r.label = true
  edges   : ∀ r ∈ s.edges, r.isEdge = true

namespace Sorted.Holds

variable {s s' : Sorted} {bound : Option Int} {rs rs' : List Record} {r : Record}

theorem empty (bound : Option Int) : Sorted.Holds {} bound [] where
  records := rfl
  nodes   := by simp
  edges   := by simp

theorem sortRecord (h : s.Holds bound rs) (hr : Episode.sortRecord bound s r = .ok s') :
    s'.Holds bound (rs ++ [r]) := by
  unfold Episode.sortRecord at hr
  split at hr
  case isTrue he =>
    cases hr
    refine { records := by simp [← h.records], nodes := h.nodes, edges := ?_ }
    intro r' hm
    cases Array.mem_push.mp hm
    case inl hm => exact h.edges r' hm
    case inr hm => exact hm ▸ he
  case isFalse he =>
    split at hr <;> try contradiction
    case isFalse hn =>
      split at hr <;> try contradiction
      case isTrue hl =>
        cases hr
        have hn : s.edges = #[] := by simpa using hn
        refine { records := by simp [← h.records, hn], nodes := ?_, edges := h.edges }
        intro r' hm
        cases Array.mem_push.mp hm
        case inl hm => exact h.nodes r' hm
        case inr hm => exact hm ▸ ⟨by simpa using he, hl⟩

theorem foldlM (h : s.Holds bound rs) (hr : rs'.foldlM (Episode.sortRecord bound) s = .ok s') :
    s'.Holds bound (rs ++ rs') := by
  induction rs' generalizing s rs
  case nil =>
    cases hr
    simpa using h
  case cons r rs' hi =>
    rw [List.foldlM_cons] at hr
    have ⟨_, h₁, h₂⟩ := Attempt.bind_eq_ok.mp hr
    have := hi (h.sortRecord h₁) h₂
    simpa using this

theorem edges_eq (h : s.Holds bound rs) : s.edges.toList = rs.filter Record.isEdge := by
  have nodes : s.nodes.toList.filter Record.isEdge = [] := by
    simpa using fun r hr => (h.nodes r hr).left
  have edges : s.edges.toList.filter Record.isEdge = s.edges.toList := by
    simpa using h.edges
  rw [← h.records, List.filter_append, nodes, edges, List.nil_append]

theorem nodes_eq (h : s.Holds bound rs) : s.nodes.toList = rs.filter (!·.isEdge) := by
  have nodes : s.nodes.toList.filter (!·.isEdge) = s.nodes.toList := by
    simpa using fun r hr => (h.nodes r hr).left
  have edges : s.edges.toList.filter (!·.isEdge) = [] := by
    simpa using h.edges
  rw [← h.records, List.filter_append, nodes, edges, List.append_nil]

end Sorted.Holds

theorem holds_of_sort {bound : Option Int} {records : List Record} {s : Sorted}
    (h : sort bound records = .ok s) : s.Holds bound records := by
  simpa using (Sorted.Holds.empty bound).foldlM h

theorem checkId_eq_ok {nodes : Nat} {id : Int} :
    checkId nodes id = .ok ⟨⟩ ↔ 1 ≤ id ∧ id ≤ nodes := by
  simp only [checkId]
  split <;> try split
  all_goals simp; omega

theorem members_of_checkIds {s : Sorted} (h : checkIds s = .ok ⟨⟩) {r : Record} (hr : r ∈ s.edges)
    {m : Int} (hm : m ∈ r.members) : 0 ≤ m ∧ m < s.nodes.size := by
  unfold checkIds at h
  split at h <;> try contradiction
  have hc := Attempt.forM_eq_ok.mp h r (Array.mem_toList_iff.mpr hr)
  have ⟨⟨id, x⟩, hid, he⟩ := List.mem_map.mp hm
  have := checkId_eq_ok.mp (Attempt.forM_eq_ok.mp hc _ hid)
  simp only at he
  omega

-- Adjacency lists for so many nodes that mention only the first so many edges.
structure Linked (nodes edges : Nat) (adjacency : Array (List Int)) : Prop where
  size : adjacency.size = nodes
  lt   : ∀ es ∈ adjacency, ∀ e ∈ es, 0 ≤ e ∧ e < edges

namespace Linked

variable {nodes edges e : Nat} {adjacency : Array (List Int)}

theorem replicate (nodes : Nat) : Linked nodes 0 (Array.replicate nodes []) where
  size := by simp
  lt   := by simp

theorem weaken {edges' : Nat} (h : Linked nodes edges adjacency) (hle : edges ≤ edges') :
    Linked nodes edges' adjacency where
  size := h.size
  lt   := fun es hes e he => by
    have := h.lt es hes e he
    omega

theorem link (h : Linked nodes edges adjacency) (he : e < edges) (n : Int) :
    Linked nodes edges (Episode.link e adjacency n) where
  size := by simp [Episode.link, h.size]
  lt   := by
    intro es hes x hx
    have ⟨i, hi, hget⟩ := Array.mem_iff_getElem.mp hes
    have hi' : i < adjacency.size := by simpa [Episode.link] using hi
    have old := h.lt adjacency[i] (Array.getElem_mem hi')
    simp only [Episode.link, Array.getElem_modify] at hget
    split at hget
    case isFalse => exact old x (hget ▸ hx)
    case isTrue =>
      split at hget
      case isTrue => exact old x (hget ▸ hx)
      case isFalse =>
        cases List.mem_append.mp (hget ▸ hx)
        case inl hx => exact old x hx
        case inr hx => simp at hx; omega

theorem foldl_link (h : Linked nodes edges adjacency) (he : e < edges) (ms : List Int) :
    Linked nodes edges (ms.foldl (Episode.link e) adjacency) := by
  induction ms generalizing adjacency
  case nil => exact h
  case cons m ms hi => exact hi (h.link he m)

theorem foldl_edges {xs : List (Record × Nat)} (h : Linked nodes edges adjacency)
    (hx : ∀ x ∈ xs, x.2 < edges) :
    Linked nodes edges (xs.foldl (fun a (r, e) => r.members.foldl (Episode.link e) a) adjacency) := by
  induction xs generalizing adjacency
  case nil => exact h
  case cons x xs hi =>
    exact hi (h.foldl_link (hx x (by simp)) _) fun y hy => hx y (by simp [hy])

end Linked

theorem linked_adjacency (s : Sorted) : Linked s.nodes.size s.edges.size (adjacency s) := by
  refine Linked.foldl_edges ((Linked.replicate _).weaken (Nat.zero_le _)) fun x hx => ?_
  have := List.mem_zipIdx hx
  simp at this
  omega

section ToGraph

variable {bound : Option Int} {labels : Nat} {records : List Record} {g : Hypergraph}

theorem toGraph_eq_ok : toGraph bound records = .ok g ↔
    ∃ s, sort bound records = .ok s ∧ checkIds s = .ok ⟨⟩ ∧ graphOf s = g := by
  simp only [toGraph, Attempt.bind_eq_ok, Attempt.pure_eq, Except.ok.injEq]
  exact ⟨fun ⟨s, hs, (), hc, hg⟩ => ⟨s, hs, hc, hg⟩, fun ⟨s, hs, hc, hg⟩ => ⟨s, hs, (), hc, hg⟩⟩

theorem records_toGraph (h : toGraph bound records = .ok g) : g.records = records := by
  have ⟨s, hs, _, hg⟩ := toGraph_eq_ok.mp h
  exact hg ▸ (holds_of_sort hs).records

theorem sound_toGraph (h : toGraph (some labels) records = .ok g) : g.Sound labels := by
  have ⟨s, hs, hc, hg⟩ := toGraph_eq_ok.mp h
  subst hg
  have hl := linked_adjacency s
  constructor
  case label =>
    intro r hr
    have := (holds_of_sort hs).nodes r hr |>.right
    simpa [labelAllowed] using this
  case members => exact fun r hr m hm => members_of_checkIds hc hr hm
  case size => exact hl.size
  case incident => exact hl.lt

-- Where no bound was asked for, some number is above all labels all the same.
theorem exists_sound_toGraph (h : toGraph bound records = .ok g) : ∃ labels, g.Sound labels := by
  have ⟨s, hs, hc, hg⟩ := toGraph_eq_ok.mp h
  subst hg
  have hl := linked_adjacency s
  have ⟨labels, above⟩ : ∃ labels : Nat, ∀ r ∈ s.nodes.toList, r.label ≤ labels := by
    induction s.nodes.toList
    case nil => exact ⟨0, by simp⟩
    case cons r rs hi =>
      have ⟨labels, above⟩ := hi
      refine ⟨max labels r.label.toNat, fun r' hr => ?_⟩
      obtain rfl | hr := List.mem_cons.mp hr
      case inl => omega
      case inr => have := above r' hr; omega
  refine ⟨labels, fun r hr => ?_, fun r hr m hm => members_of_checkIds hc hr hm, hl.size, hl.lt⟩
  have allowed := (holds_of_sort hs).nodes r hr |>.right
  simp only [labelAllowed, Bool.and_eq_true, decide_eq_true_eq] at allowed
  exact ⟨allowed.left, above r (Array.mem_toList_iff.mpr hr)⟩

end ToGraph
end Episode
end CollectiveLabeling
