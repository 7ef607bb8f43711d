import CollectiveLabeling.Proofs.Sweep.Breadth

namespace CollectiveLabeling

namespace Hypergraph

-- A graph with a list of edges for each node. The lists may name the edges in any order, from either
-- end and more than once, and an edge need not be listed at its members, which may lead anywhere.
structure Walkable (g : Hypergraph) : Prop where
  size  : g.adjacency.size = g.nodes.size
  range : ∀ es ∈ g.adjacency, ∀ e ∈ es, -g.edges.size ≤ e ∧ e < g.edges.size

-- One of the edges that are listed at a node has the other as a member.
def Leads (g : Hypergraph) (n : Nat) (m : Int) : Prop :=
  ∃ es, g.incident n = .ok es ∧ ∃ e ∈ es, ∃ ms, g.members e = .ok ms ∧ m ∈ ms

-- The members of an edge. An edge that is not there has none.
def along (g : Hypergraph) (e : Int) : List Int :=
  (g.members e).toOption.getD []

variable {g : Hypergraph} {n : Nat} {e : Int} {es : List Int} {listed found : List Nat}

theorem exists_lookup_eq_ok {α : Type} {xs : Array α} {i : Int} (h : -xs.size ≤ i ∧ i < xs.size) :
    ∃ x, lookup xs i = .ok x := by
  cases hp : Index.place? xs.size i
  case none =>
    have := Index.place?_eq_none_iff.mp hp
    omega
  case some p =>
    have lt := Index.lt_of_place? hp
    exact ⟨xs[p], lookup_eq_ok.mpr ⟨p, hp, Array.getElem?_eq_getElem lt⟩⟩

namespace Walkable

variable (h : g.Walkable)
include h

theorem incident_ok (hn : n < g.nodes.size) : ∃ es, g.incident n = .ok es :=
  ⟨_, lookup_natCast (h.size ▸ hn)⟩

theorem members_eq (hi : g.incident n = .ok es) (he : e ∈ es) : g.members e = .ok (g.along e) := by
  have ⟨_, _, hp⟩ := lookup_eq_ok.mp hi
  have ⟨r, hr⟩ := exists_lookup_eq_ok (h.range es (Array.mem_of_getElem? hp) e he)
  have found : g.members e = .ok r.members := Attempt.map_ok _ r ▸ congrArg _ hr
  simp [along, found, Except.toOption]

theorem mapM_members (hi : g.incident n = .ok es) : es.mapM g.members = .ok (es.map g.along) :=
  Attempt.mapM_eq_ok fun _ he => h.members_eq hi he

-- Next to a node are the members of the edges that are listed at it, itself left out.
theorem neighbors_eq (hi : g.incident n = .ok es) :
    g.neighbors n = .ok (es.flatMap fun e => ((g.along e).filter (· ≠ (n : Int))).map (e, ·)) := by
  have near (e : Int) (he : e ∈ es) : List.map (e, ·) <$> g.others n e =
      .ok (((g.along e).filter (· ≠ (n : Int))).map (e, ·)) := by
    simp [others, h.members_eq hi he]
  simp only [neighbors, hi, Attempt.ok_bind, Attempt.mapM_eq_ok near]
  rfl

theorem leads_iff {m : Int} (hi : g.incident n = .ok es) : g.Leads n m ↔ m ∈ es.flatMap g.along := by
  rw [List.mem_flatMap]
  constructor
  case mp =>
    rintro ⟨_, found, e, he, ms, hm, mem⟩
    cases hi.symm.trans found
    cases (h.members_eq hi he).symm.trans hm
    exact ⟨e, he, mem⟩
  case mpr =>
    rintro ⟨e, he, mem⟩
    exact ⟨es, hi, e, he, g.along e, h.members_eq hi he, mem⟩

end Walkable

-- A list in which every node comes after one that leads to it, or is the lowest of those that do not
-- come before it.
def Grown (g : Hypergraph) (listed : List Nat) : Prop :=
  ∀ (before : List Nat) (n : Nat) (after : List Nat), listed = before ++ n :: after →
    (∃ k ∈ before, g.Leads k n) ∨ IsLeast {m | m < g.nodes.size ∧ m ∉ before} n

theorem Grown.nil : g.Grown [] :=
  fun _ _ _ same => absurd same (by simp)

theorem Grown.concat (h : g.Grown listed)
    (hn : (∃ k ∈ listed, g.Leads k n) ∨ IsLeast {m | m < g.nodes.size ∧ m ∉ listed} n) :
    g.Grown (listed ++ [n]) := by
  intro before k after same
  obtain rfl | ⟨after, last, rfl⟩ := after.eq_nil_or_concat
  case inl =>
    obtain ⟨rfl, last⟩ := List.append_inj' same rfl
    cases last
    exact hn
  case inr =>
    have same : listed ++ [n] = (before ++ k :: after) ++ [last] := by simpa using same
    exact h before k after (List.append_inj' same rfl).left

theorem Grown.append (h : g.Grown listed) (hf : ∀ m ∈ found, ∃ k ∈ listed, g.Leads k m) :
    g.Grown (listed ++ found) := by
  induction found generalizing listed
  case nil => simpa using h
  case cons m found hi =>
    have ⟨first, rest⟩ := List.forall_mem_cons.mp hf
    have later : ∀ m' ∈ found, ∃ k ∈ listed ++ [m], g.Leads k m' := fun m' hm' =>
      have ⟨k, hk, leads⟩ := rest m' hm'
      ⟨k, List.mem_append_left _ hk, leads⟩
    simpa using hi (h.concat (.inl first)) later

end Hypergraph

namespace Sweep

-- A node that is not untouched is not reached.
theorem reach_filter {n : Nat} {untouched : List Nat} (h : n ∉ untouched) (near : List Int) :
    reach (near.filter (· ≠ (n : Int))) untouched = reach near untouched := by
  induction near generalizing untouched
  case nil => rfl
  case cons m near hi =>
    by_cases own : m = n
    case pos =>
      subst own
      rw [List.filter_cons_of_neg (by simp), hi h]
      simp [reach, h]
    case neg =>
      rw [List.filter_cons_of_pos (by simpa using own)]
      by_cases found : 0 ≤ m ∧ m.toNat ∈ untouched
      case pos =>
        have h' : n ∉ untouched.erase m.toNat := fun mem => h (List.mem_of_mem_erase mem)
        simp only [reach, found, and_self, if_true, hi h']
      case neg => simp only [reach, found, if_false, hi h]

-- The visit as one list that grows while a cursor goes along it. What is not listed yet stands in
-- ascending order.
structure Scan where
  listed    : List Nat
  cursor    : Nat
  untouched : List Nat

namespace Scan

def start (g : Hypergraph) : Scan where
  listed    := []
  cursor    := 0
  untouched := List.range g.nodes.size

def touch (s : Scan) (m : Int) : Scan :=
  if 0 ≤ m ∧ m.toNat ∈ s.untouched then
    { s with listed := s.listed ++ [m.toNat], untouched := s.untouched.erase m.toNat }
  else s

-- Goes through the edges that are listed at the node under the cursor.
def advance (s : Scan) (g : Hypergraph) : Except Fault Scan := do
  let n ← Hypergraph.lookup s.listed.toArray s.cursor
  let es ← g.incident n
  let near ← es.mapM g.members
  return { near.flatten.foldl touch s with cursor := s.cursor + 1 }

-- Starts again at the lowest node that is not listed.
def restart (s : Scan) : Except Fault Scan := do
  let seed ← Hypergraph.lookup s.untouched.toArray 0
  return { s with listed := s.listed ++ [seed], untouched := s.untouched.erase seed }

-- One turn of the loop that goes along the list or, when the cursor has come to its end, of the one
-- around it. There is none left once all nodes are listed.
def turn (s : Scan) (g : Hypergraph) : Except Fault (Option Scan) :=
  if s.cursor < s.listed.length then some <$> s.advance g
  else if s.listed.length < g.nodes.size then some <$> s.restart
  else .ok none

inductive Turns (g : Hypergraph) (s : Scan) : Nat → Scan → Prop
  | refl : Turns g s 0 s
  | turn {count : Nat} {t u : Scan} :
    Turns g s count t → t.turn g = .ok (some u) → Turns g s (count + 1) u

-- Each node is still to be listed or not, and each is still to be gone through.
def ahead (s : Scan) : Nat :=
  2 * s.untouched.length + (s.listed.length - s.cursor)

variable {g : Hypergraph} {s t : Scan} {order : List Nat} {count : Nat}

theorem foldl_touch (s : Scan) (near : List Int) : near.foldl touch s = {
    listed    := s.listed ++ (reach near s.untouched).1
    cursor    := s.cursor
    untouched := (reach near s.untouched).2 } := by
  induction near generalizing s
  case nil => simp [reach]
  case cons m near hi =>
    rw [List.foldl_cons, hi]
    by_cases found : 0 ≤ m ∧ m.toNat ∈ s.untouched
    case pos => simp [touch, reach, found]
    case neg => simp only [touch, reach, found, if_false]

-- What every turn finds: the nodes are listed or untouched, and what is left of the visit is what is
-- still to come of the order.
structure Holds (g : Hypergraph) (order : List Nat) (s : Scan) : Prop where
  nodes     : (s.listed ++ s.untouched).Perm (List.range g.nodes.size)
  ascending : s.untouched.Pairwise (· < ·)
  cursor    : s.cursor ≤ s.listed.length
  grown     : g.Grown s.listed
  rest      : ∃ later, explore g s.untouched (s.listed.drop s.cursor) = .ok later ∧
    order = s.listed.take s.cursor ++ later

-- What a turn comes to.
inductive Turned (g : Hypergraph) (s : Scan) : Prop
  | ended : s.cursor = s.listed.length → s.untouched = [] → s.turn g = .ok none → Turned g s
  | restarted {seed : Nat} {untouched : List Nat} :
    s.cursor = s.listed.length → s.untouched = seed :: untouched →
    s.turn g = .ok (some { s with listed := s.listed ++ [seed], untouched }) → Turned g s
  | advanced {n : Nat} {pending : List Nat} {near : List (Int × Int)} :
    s.listed.drop s.cursor = n :: pending → g.neighbors n = .ok near →
    (∀ m ∈ near.map (·.2), g.Leads n m) →
    s.turn g = .ok (some {
      listed    := s.listed ++ (reach (near.map (·.2)) s.untouched).1
      cursor    := s.cursor + 1
      untouched := (reach (near.map (·.2)) s.untouched).2 }) → Turned g s

namespace Holds

theorem start (ho : Sweep.order g = .ok order) : (Scan.start g).Holds g order where
  nodes     := .refl _
  ascending := List.pairwise_lt_range
  cursor    := Nat.le_refl _
  grown     := Hypergraph.Grown.nil
  rest      := ⟨order, ho, rfl⟩

variable (h : s.Holds g order)
include h

theorem length_eq : s.listed.length + s.untouched.length = g.nodes.size := by
  simpa using h.nodes.length_eq

theorem nodup : (s.listed ++ s.untouched).Nodup :=
  h.nodes.nodup_iff.mpr List.nodup_range

theorem mem_iff {m : Nat} : m < g.nodes.size ↔ m ∈ s.listed ∨ m ∈ s.untouched := by
  rw [← List.mem_range, ← h.nodes.mem_iff, List.mem_append]

-- The first of the untouched nodes is the lowest that is not listed.
theorem isLeast {seed : Nat} {untouched : List Nat} (hu : s.untouched = seed :: untouched) :
    IsLeast {m | m < g.nodes.size ∧ m ∉ s.listed} seed := by
  have first : seed ∈ s.untouched := hu ▸ List.mem_cons_self
  refine ⟨⟨h.mem_iff.mpr (.inr first), fun listed => ?_⟩, fun m ⟨lt, out⟩ => ?_⟩
  case refine_1 => exact List.disjoint_of_nodup_append h.nodup listed first
  case refine_2 =>
    have mem : m ∈ seed :: untouched := hu ▸ (h.mem_iff.mp lt).resolve_left out
    cases mem
    case head => exact Nat.le_refl _
    case tail mem => exact Nat.le_of_lt ((List.pairwise_cons.mp (hu ▸ h.ascending)).left m mem)

theorem turned (walkable : g.Walkable) : Turned g s := by
  have length := h.length_eq
  by_cases inside : s.cursor < s.listed.length
  case pos =>
    have mem : s.listed[s.cursor] ∈ s.listed := List.getElem_mem inside
    have lt := h.mem_iff.mpr (.inl mem)
    have fresh : s.listed[s.cursor] ∉ s.untouched := List.disjoint_of_nodup_append h.nodup mem
    have at_cursor : Hypergraph.lookup s.listed.toArray s.cursor = .ok s.listed[s.cursor] :=
      @Hypergraph.lookup_natCast _ s.listed.toArray _ inside
    obtain ⟨es, hi⟩ := walkable.incident_ok lt
    have others : (es.flatMap fun e => ((g.along e).filter (· ≠ (s.listed[s.cursor] : Int))).map (e, ·)).map
        (·.2) = (es.flatMap g.along).filter (· ≠ (s.listed[s.cursor] : Int)) := by
      simp [List.map_flatMap, List.filter_flatMap, Function.comp_def]
    refine .advanced (List.drop_eq_getElem_cons inside) (walkable.neighbors_eq hi) (fun m hm => ?_) ?_
    case refine_1 =>
      rw [others] at hm
      exact (walkable.leads_iff hi).mpr (List.mem_filter.mp hm).left
    case refine_2 =>
      rw [others, reach_filter fresh, turn, if_pos inside]
      simp [advance, at_cursor, hi, walkable.mapM_members hi, foldl_touch, List.flatMap_def]
  case neg =>
    have done : s.cursor = s.listed.length := Nat.le_antisymm h.cursor (Nat.le_of_not_lt inside)
    cases hu : s.untouched
    case nil =>
      have all : ¬s.listed.length < g.nodes.size := by
        rw [hu, List.length_nil] at length
        omega
      exact .ended done hu (by rw [turn, if_neg inside, if_neg all])
    case cons seed untouched =>
      have some_left : s.listed.length < g.nodes.size := by
        rw [hu, List.length_cons] at length
        omega
      have first : Hypergraph.lookup (seed :: untouched).toArray 0 = .ok seed :=
        @Hypergraph.lookup_natCast _ (seed :: untouched).toArray 0 (by simp)
      refine .restarted done hu ?_
      rw [turn, if_neg inside, if_pos some_left, restart, hu, first]
      simp

theorem turn_ok (walkable : g.Walkable) : ∃ next, s.turn g = .ok next := by
  cases h.turned walkable
  case ended ht => exact ⟨_, ht⟩
  case restarted ht => exact ⟨_, ht⟩
  case advanced ht => exact ⟨_, ht⟩

-- A turn keeps what holds, lists more and comes closer to the end.
theorem next (walkable : g.Walkable) (ht : s.turn g = .ok (some t)) :
    t.Holds g order ∧ s.listed <+: t.listed ∧ t.ahead < s.ahead := by
  obtain ⟨later, explored, rfl⟩ := h.rest
  cases h.turned walkable
  case ended none => cases none.symm.trans ht
  case restarted seed untouched done hu seeded =>
    cases seeded.symm.trans ht
    rw [hu, done, List.drop_length] at explored
    refine ⟨?_, List.prefix_append .., ?_⟩
    case refine_1 => exact {
      nodes     := by simpa [hu] using h.nodes
      ascending := (List.pairwise_cons.mp (hu ▸ h.ascending)).right
      cursor    := Nat.le_trans h.cursor (by simp)
      grown     := h.grown.concat (.inr (h.isLeast hu))
      rest      := ⟨later, by simpa [done, explore] using explored, by simp [done]⟩ }
    case refine_2 =>
      simp only [ahead, done, hu, List.length_append, List.length_cons, List.length_nil]
      omega
  case advanced n pending near at_cursor hn leads advanced =>
    cases advanced.symm.trans ht
    have inside : s.cursor < s.listed.length := by
      have := congrArg List.length at_cursor
      rw [List.length_drop, List.length_cons] at this
      omega
    have mem : n ∈ s.listed := List.mem_of_mem_drop (at_cursor ▸ List.mem_cons_self)
    have behind : s.listed.drop (s.cursor + 1) = pending := by
      rw [← List.tail_drop, at_cursor, List.tail_cons]
    have before : s.listed.take (s.cursor + 1) = s.listed.take s.cursor ++ [n] := by
      rw [List.take_add_one, ← List.head?_drop, at_cursor]
      rfl
    have split := reach_perm (near.map (·.2)) s.untouched
    have length := length_reach (near.map (·.2)) s.untouched
    -- What is left of the visit begins with the node under the cursor.
    rw [at_cursor, explore] at explored
    obtain ⟨_, same, hl⟩ := Attempt.bind_eq_ok.mp explored
    cases hn.symm.trans same
    obtain ⟨rest, hr, is⟩ := Attempt.bind_eq_ok.mp hl
    cases is
    refine ⟨?_, List.prefix_append .., ?_⟩
    case refine_1 => exact {
      nodes     := by simpa using (split.append_left s.listed).trans h.nodes
      ascending := h.ascending.sublist (reach_sublist ..)
      cursor    := Nat.le_trans inside (by simp)
      grown     := h.grown.append fun m hm =>
        ⟨n, mem, leads m ((mem_reach (List.nodup_append.mp h.nodup).right.left).mp hm).right⟩
      rest      := ⟨rest, by simpa [List.drop_append_of_le_length inside, behind] using hr,
        by simp [List.take_append_of_le_length inside, before]⟩ }
    case refine_2 =>
      simp only [ahead, List.length_append]
      omega

-- When no turn is left, all nodes are listed.
theorem listed_eq (walkable : g.Walkable) (last : s.turn g = .ok none) : s.listed = order := by
  obtain ⟨later, explored, rfl⟩ := h.rest
  cases h.turned walkable
  case ended done none _ =>
    rw [done, List.drop_length, none, explore] at explored
    cases explored
    rw [done, List.take_length, List.append_nil]
  case restarted seeded => cases seeded.symm.trans last
  case advanced advanced => cases advanced.symm.trans last

-- With the cursor at its end, the list goes on with the lowest node that is not in it.
theorem restarts (walkable : g.Walkable) (done : s.cursor = s.listed.length)
    (ht : s.turn g = .ok (some t)) :
    ∃ seed, t.listed = s.listed ++ [seed] ∧ IsLeast {m | m < g.nodes.size ∧ m ∉ s.listed} seed := by
  cases h.turned walkable
  case ended none => cases none.symm.trans ht
  case restarted seed untouched _ hu seeded =>
    cases seeded.symm.trans ht
    exact ⟨seed, rfl, h.isLeast hu⟩
  case advanced at_cursor _ _ _ =>
    rw [done, List.drop_length] at at_cursor
    cases at_cursor

end Holds

namespace Turns

-- A number of turns brings the end closer by as much.
theorem holds (walkable : g.Walkable) (h : s.Holds g order) (turns : Turns g s count t) :
    t.Holds g order ∧ t.ahead + count ≤ s.ahead := by
  induction turns
  case refl => exact ⟨h, Nat.le_refl _⟩
  case turn ht hi =>
    have ⟨holds, _, closer⟩ := hi.left.next walkable ht
    exact ⟨holds, by omega⟩

theorem head {u : Scan} (ht : s.turn g = .ok (some t)) (turns : Turns g t count u) :
    Turns g s (count + 1) u := by
  induction turns
  case refl => exact .turn .refl ht
  case turn hu hi => exact hi.turn hu

end Turns

-- The turns come to an end, and what was listed before then stays in front.
theorem Holds.exists_last (walkable : g.Walkable) (h : s.Holds g order) :
    ∃ count last, Turns g s count last ∧ last.turn g = .ok none ∧ last.listed = order ∧
      s.listed <+: order := by
  induction size : s.ahead using Nat.strong_induction_on generalizing s
  case h size hi =>
    obtain ⟨next, ht⟩ := h.turn_ok walkable
    cases next
    case none =>
      have all := h.listed_eq walkable ht
      exact ⟨0, s, .refl, ht, all, all ▸ List.prefix_refl _⟩
    case some t =>
      have ⟨holds, longer, closer⟩ := h.next walkable ht
      have ⟨count, last, turns, ended, all, first⟩ := hi t.ahead (size ▸ closer) holds rfl
      exact ⟨count + 1, last, turns.head ht, ended, all, longer.trans first⟩

end Scan

-- The visit of a graph ends, whatever its lists look like: no turn goes wrong, there are at most two for
-- each node, and at last every node is listed once. When the list has been gone through and is not
-- complete, it goes on with the lowest node that is missing.
theorem order_of_walkable {g : Hypergraph} (walkable : g.Walkable) :
    ∃ order, Sweep.order g = .ok order ∧ order.Perm (List.range g.nodes.size) ∧ g.Grown order ∧
      (∃ count last, Scan.Turns g (.start g) count last ∧ last.turn g = .ok none ∧
        last.listed = order) ∧
      ∀ count s, Scan.Turns g (.start g) count s →
        count ≤ 2 * g.nodes.size ∧ s.listed <+: order ∧ (∃ next, s.turn g = .ok next) ∧
        ∀ t, s.cursor = s.listed.length → s.turn g = .ok (some t) →
          ∃ seed, t.listed = s.listed ++ [seed] ∧
            IsLeast {m | m < g.nodes.size ∧ m ∉ s.listed} seed := by
  have ⟨order, ho, perm⟩ := explore_perm (g := g) (List.range g.nodes.size) [] fun n hn =>
    have ⟨_, hi⟩ := walkable.incident_ok (List.mem_range.mp hn)
    ⟨_, walkable.neighbors_eq hi⟩
  have start := Scan.Holds.start ho
  have ⟨count, last, turns, ended, all, _⟩ := start.exists_last walkable
  have ⟨final, _⟩ := turns.holds walkable start
  refine ⟨order, ho, by simpa using perm, all ▸ final.grown, ⟨count, last, turns, ended, all⟩, ?_⟩
  intro count s turns
  have ⟨holds, closer⟩ := turns.holds walkable start
  have ⟨_, _, _, _, _, first⟩ := holds.exists_last walkable
  have ahead : (Scan.start g).ahead = 2 * g.nodes.size := by simp [Scan.ahead, Scan.start]
  exact ⟨by omega, first, holds.turn_ok walkable, fun t done ht => holds.restarts walkable done ht⟩

-- Edges that are not listed at their members, or twice, or from the end, and members that are not there.
theorem order_of_walkable_astray :
    let near : Record := { costs := [(3, 1.0), (8, 1.0), (-4, 1.0), (3, 1.0)] }
    let g : Hypergraph := {
      nodes     := #[{}, {}, {}, {}]
      edges     := #[near, { costs := [(2, 1.0), (1, 1.0)] }]
      adjacency := #[[0, -2, 0], [], [], [-1]] }
    g.Walkable ∧ Sweep.order g = .ok [0, 2, 1, 3] ∧ g.Grown [0, 2, 1, 3] ∧
      ∃ count last, Scan.Turns g (.start g) count last ∧ last.turn g = .ok none ∧
        last.listed = [0, 2, 1, 3] := by
  intro near g
  have walkable : g.Walkable := ⟨rfl, by simp [g]⟩
  have visited : Sweep.order g = .ok [0, 2, 1, 3] := by
    simp [order, explore, reach, g, near, List.range, List.range.loop, Hypergraph.neighbors,
      Hypergraph.incident, Hypergraph.others, Hypergraph.members, Hypergraph.edge, Hypergraph.lookup,
      Index.place?, Record.members]
  obtain ⟨order, ho, _, grown, last, _⟩ := order_of_walkable walkable
  cases ho.symm.trans visited
  exact ⟨walkable, visited, grown, last⟩

end Sweep
end CollectiveLabeling
