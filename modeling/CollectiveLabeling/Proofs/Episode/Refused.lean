import CollectiveLabeling.Proofs.Episode.WellFormed
import CollectiveLabeling.Proofs.Fault
import Mathlib

namespace CollectiveLabeling.Episode

variable {bound : Option Int} {records : List Record} {prior : Option Prior} {d : Defect}

-- The nodes that the edges name, in the order in which they are looked at.
def ids (records : List Record) : List Int :=
  (edges records).flatMap fun r => r.costs.map Prod.fst

-- The first thing that is amiss in an episode. The records are gone through one by one until one of
-- them cannot be sorted. If all of them can be, the nodes that the edges name are gone through.
inductive Amiss (bound : Option Int) (records : List Record) : Defect → Prop
  | late {sorted rest : List Record} {r : Record} : records = sorted ++ r :: rest →
      Sortable bound sorted → r.isEdge = false → edges sorted ≠ [] →
      Amiss bound records .nodeAfterEdge
  | label {sorted rest : List Record} {r : Record} : records = sorted ++ r :: rest →
      Sortable bound sorted → r.isEdge = false → edges sorted = [] →
      ¬(0 ≤ r.label ∧ ∀ k ∈ bound, r.label ≤ k) →
      Amiss bound records (.labelOutside r.label bound (nodes sorted).length)
  | bare : Sortable bound records → nodes records = [] → edges records ≠ [] →
      Amiss bound records .edgesWithoutNodes
  | large {checked rest : List Int} {id : Int} : Sortable bound records → nodes records ≠ [] →
      ids records = checked ++ id :: rest → (∀ i ∈ checked, 1 ≤ i ∧ i ≤ (nodes records).length) →
      (nodes records).length < id → Amiss bound records (.nodeIdTooLarge id (nodes records).length)
  | small {checked rest : List Int} {id : Int} : Sortable bound records → nodes records ≠ [] →
      ids records = checked ++ id :: rest → (∀ i ∈ checked, 1 ≤ i ∧ i ≤ (nodes records).length) →
      id < 1 → Amiss bound records (.nodeIdNotPositive id)

theorem sortRecord_eq_error {s : Sorted} {r : Record} : sortRecord bound s r = .error d ↔
    r.isEdge = false ∧ (s.edges ≠ #[] ∧ d = .nodeAfterEdge ∨
      s.edges = #[] ∧ ¬(0 ≤ r.label ∧ ∀ k ∈ bound, r.label ≤ k) ∧
        d = .labelOutside r.label bound s.nodes.size) := by
  rw [← labelAllowed_iff]
  simp only [sortRecord]
  split
  case isTrue edge => simp [edge]
  case isFalse node =>
    split
    case isTrue late =>
      have late : s.edges ≠ #[] := by simpa using late
      rw [Except.error.injEq, eq_comm]
      simp [node, late]
    case isFalse first =>
      have first : s.edges = #[] := by simpa using first
      split
      case isTrue allowed => simp [first, allowed]
      case isFalse outside =>
        rw [Except.error.injEq, eq_comm]
        simp [node, first, outside]

theorem sort_eq_error : sort bound records = .error d ↔ ∃ sorted r rest,
    records = sorted ++ r :: rest ∧ Sortable bound sorted ∧
      sortRecord bound ⟨(nodes sorted).toArray, (edges sorted).toArray⟩ r = .error d := by
  refine Attempt.foldlM_eq_error.trans ⟨fun ⟨sorted, r, rest, s, parts, hs, hr⟩ => ?_,
    fun ⟨sorted, r, rest, parts, sortable, hr⟩ => ⟨sorted, r, rest, _, parts, sortable.sort_ok, hr⟩⟩
  have sortable := (holds_of_sort hs).sortable
  cases hs.symm.trans sortable.sort_ok
  exact ⟨sorted, r, rest, parts, sortable, hr⟩

theorem checkId_eq_error {nodes : Nat} {id : Int} : checkId nodes id = .error d ↔
    (nodes : Int) < id ∧ d = .nodeIdTooLarge id nodes ∨ id < 1 ∧ d = .nodeIdNotPositive id := by
  simp only [checkId]
  split
  case isTrue large =>
    have notSmall : ¬id < 1 := by omega
    simp [large, notSmall, eq_comm]
  case isFalse notLarge =>
    split
    case isTrue small => simp [notLarge, small, eq_comm]
    case isFalse notSmall => simp [notLarge, notSmall]

theorem checkIds_eq (records : List Record) :
    checkIds ⟨(nodes records).toArray, (edges records).toArray⟩ =
      if nodes records = [] ∧ edges records ≠ [] then .error .edgesWithoutNodes
      else (ids records).forM (checkId (nodes records).length) := by
  have bare : ((nodes records).toArray.isEmpty && !(edges records).toArray.isEmpty) = true ↔
      nodes records = [] ∧ edges records ≠ [] := by simp
  simp only [checkIds, bare, ids, Attempt.forM_flatMap, List.forM_eq_forM, List.forM_map,
    List.size_toArray]

theorem checkIds_eq_error :
    checkIds ⟨(nodes records).toArray, (edges records).toArray⟩ = .error d ↔
      nodes records = [] ∧ edges records ≠ [] ∧ d = .edgesWithoutNodes ∨
      nodes records ≠ [] ∧ ∃ (checked : List Int) (id : Int) (rest : List Int),
        ids records = checked ++ id :: rest ∧ (∀ i ∈ checked, 1 ≤ i ∧ i ≤ (nodes records).length) ∧
        checkId (nodes records).length id = .error d := by
  rw [checkIds_eq]
  by_cases none : nodes records = []
  case neg =>
    rw [if_neg fun bare => none bare.left, Attempt.forM_eq_error]
    simp [none, checkId_eq_ok]
  case pos =>
    by_cases bare : edges records = []
    case neg => simp [none, bare, eq_comm]
    case pos => simp [none, bare, ids]

-- An episode is refused for the first thing that is amiss, and for nothing else.
theorem toGraph_eq_error : toGraph bound records = .error d ↔ Amiss bound records d := by
  constructor
  case mp =>
    intro h
    obtain unsorted | ⟨s, hs, h⟩ := Attempt.bind_eq_error.mp h
    case inl =>
      have ⟨sorted, r, rest, parts, sortable, hr⟩ := sort_eq_error.mp unsorted
      obtain ⟨node, ⟨late, rfl⟩ | ⟨first, outside, rfl⟩⟩ := sortRecord_eq_error.mp hr
      case inl => exact .late parts sortable node (by simpa using late)
      case inr => exact .label parts sortable node (by simpa using first) outside
    case inr =>
      have sortable := (holds_of_sort hs).sortable
      cases hs.symm.trans sortable.sort_ok
      obtain unchecked | ⟨_, _, h⟩ := Attempt.bind_eq_error.mp h
      case inr => cases h
      case inl =>
        obtain ⟨none, some, rfl⟩ | ⟨some, checked, id, rest, parts, fine, hid⟩ :=
          checkIds_eq_error.mp unchecked
        case inl => exact .bare sortable none some
        case inr =>
          obtain ⟨large, rfl⟩ | ⟨small, rfl⟩ := checkId_eq_error.mp hid
          case inl => exact .large sortable some parts fine large
          case inr => exact .small sortable some parts fine small
  case mpr =>
    have unsorted {sorted rest : List Record} {r : Record} (parts : records = sorted ++ r :: rest)
        (sortable : Sortable bound sorted)
        (hr : sortRecord bound ⟨(nodes sorted).toArray, (edges sorted).toArray⟩ r = .error d) :
        toGraph bound records = .error d :=
      Attempt.bind_eq_error.mpr (.inl (sort_eq_error.mpr ⟨sorted, r, rest, parts, sortable, hr⟩))
    have unchecked (sortable : Sortable bound records)
        (h : checkIds ⟨(nodes records).toArray, (edges records).toArray⟩ = .error d) :
        toGraph bound records = .error d :=
      Attempt.bind_eq_error.mpr (.inr ⟨_, sortable.sort_ok, Attempt.bind_eq_error.mpr (.inl h)⟩)
    intro amiss
    cases amiss
    case late sorted rest r parts sortable node late =>
      exact unsorted parts sortable (sortRecord_eq_error.mpr ⟨node, .inl ⟨by simpa using late, rfl⟩⟩)
    case label sorted rest r parts sortable node first outside =>
      exact unsorted parts sortable
        (sortRecord_eq_error.mpr ⟨node, .inr ⟨by simpa using first, outside, rfl⟩⟩)
    case bare sortable none some =>
      exact unchecked sortable (checkIds_eq_error.mpr (.inl ⟨none, some, rfl⟩))
    case large checked rest id sortable some parts fine large =>
      have refused : checkId (nodes records).length id = _ := checkId_eq_error.mpr (.inl ⟨large, rfl⟩)
      exact unchecked sortable (checkIds_eq_error.mpr (.inr ⟨some, checked, id, rest, parts, fine, refused⟩))
    case small checked rest id sortable some parts fine small =>
      have refused : checkId (nodes records).length id = _ := checkId_eq_error.mpr (.inr ⟨small, rfl⟩)
      exact unchecked sortable (checkIds_eq_error.mpr (.inr ⟨some, checked, id, rest, parts, fine, refused⟩))

-- The episodes that are loaded are the well-formed ones; the prior has to go as far as the labels that
-- are allowed. Every other is refused for the first thing that is amiss, as long as all the numbers that
-- would have to be cited are short enough to be written.
theorem load_iff_wellFormed
    (covered : ∀ p ∈ prior, p.Full ∧ ∀ k ∈ boundOf bound prior, k ≤ p.labels) :
    ((∃ g prior', load bound records prior = .ok g prior') ↔
      WellFormed (boundOf bound prior) records) ∧
    (∀ g prior', load bound records prior = .ok g prior' →
      g.nodes.toList = nodes records ∧ g.edges.toList = edges records) ∧
    (¬WellFormed (boundOf bound prior) records → ∃ d, Amiss (boundOf bound prior) records d) ∧
    ∀ d, Amiss (boundOf bound prior) records d → load bound records prior = .error
      (if ∀ n ∈ d.cited, n.natAbs < 10 ^ Decimal.digitLimit then .defect d
        else .invalid (.unwritable Decimal.digitLimit)) prior := by
  cases hg : toGraph (boundOf bound prior) records
  case error d =>
    have refused := load_of_defect hg
    have malformed : ¬WellFormed (boundOf bound prior) records := fun formed =>
      have ⟨_, accepted⟩ := formed.toGraph_ok
      nomatch hg.symm.trans accepted
    have none : ∀ g prior', load bound records prior ≠ .ok g prior' :=
      fun _ _ loaded => nomatch refused.symm.trans loaded
    refine ⟨iff_of_false (fun ⟨g, prior', h⟩ => none g prior' h) malformed,
      fun g prior' h => absurd h (none g prior'), fun _ => ⟨d, toGraph_eq_error.mp hg⟩, fun d' amiss => ?_⟩
    cases hg.symm.trans (toGraph_eq_error.mpr amiss)
    rw [refused, Fault.raised_defect]
  case ok g =>
    have ⟨prior', loaded⟩ := load_of_toGraph covered hg
    have formed := wellFormed_of_toGraph hg
    refine ⟨iff_of_true ⟨g, prior', loaded⟩ formed, ?_, fun h => absurd formed h, fun d amiss => ?_⟩
    case refine_1 =>
      intro _ _ same
      cases loaded.symm.trans same
      exact parts_of_toGraph hg
    case refine_2 => cases hg.symm.trans (toGraph_eq_error.mpr amiss)

-- A node with a label, one without and an edge between them. With the edge in front they are refused,
-- and so they are with a label too high. The prior goes further than the labels that are allowed.
theorem load_iff_wellFormed_sample :
    let p : Prior := { labels := 2, counts := #[1, 1, 1], total := 3 }
    let node (label : Int) : Record := { costs := [(label, 1.0)] }
    let edge : Record := { costs := [(1, 1.0), (2, 1.0)] }
    (p.Full ∧ ∀ k ∈ boundOf (some 1) (some p), k ≤ p.labels) ∧
    (∃ g prior', load (some 1) [node 1, {}, edge] (some p) = .ok g prior' ∧
      g.nodes.toList = [node 1, {}] ∧ g.edges.toList = [edge]) ∧
    load (some 1) [edge, node 1, {}] (some p) = .error (.defect .nodeAfterEdge) (some p) ∧
    load (some 1) [{}, node 2, edge] (some p) =
      .error (.defect (.labelOutside 2 (some 1) 1)) (some p) := by
  intro p node edge
  have covered : ∀ q ∈ some p, q.Full ∧ ∀ k ∈ boundOf (some 1) (some q), k ≤ q.labels := by
    rintro _ ⟨⟩
    exact ⟨Prior.full_ofLabels (rfl : Prior.ofLabels 2 = .ok p), by simp [boundOf, p]⟩
  have formed : WellFormed (some 1) [node 1, {}, edge] := {
    order   := by simp [node, edge, Record.isEdge]
    labels  := by simp [node, edge, Record.isEdge, Record.label]
    members := by
      simp only [node, edge, Record.isEdge, nodes, List.mem_map]
      grind }
  have single (r : Record) (allowed : r.isEdge = false → 0 ≤ r.label ∧ ∀ k ∈ some (1 : Int), r.label ≤ k) :
      Sortable (some 1) [r] := ⟨List.pairwise_singleton .., by simpa using allowed⟩
  have late : Amiss (some 1) [edge, node 1, {}] .nodeAfterEdge :=
    .late (rfl : _ = [edge] ++ _) (single edge (by simp [edge, Record.isEdge])) rfl (by decide)
  have outside : Amiss (some 1) [{}, node 2, edge] (.labelOutside 2 (some 1) 1) :=
    .label (rfl : _ = [{}] ++ node 2 :: _) (single {} (by simp [Record.label])) rfl rfl
      (by simp [node, Record.label])
  have brief : ∀ n ∈ (Defect.labelOutside 2 (some 1) 1).cited, n.natAbs < 10 ^ Decimal.digitLimit := by
    intro n hn
    refine Decimal.natAbs_lt_of_lt ?_
    obtain rfl | rfl : n = 2 ∨ n = 1 := by simpa [Defect.cited] using hn
    all_goals decide
  have loads (records : List Record) := @load_iff_wellFormed (some 1) records (some p) covered
  obtain ⟨accepts, parts, _, _⟩ := loads [node 1, {}, edge]
  obtain ⟨_, _, _, refuses⟩ := loads [edge, node 1, {}]
  obtain ⟨_, _, _, refuses'⟩ := loads [{}, node 2, edge]
  obtain ⟨g, prior', loaded⟩ := accepts.mpr formed
  refine ⟨covered p rfl, ⟨g, prior', loaded, parts g prior' loaded⟩, ?_, ?_⟩
  case refine_1 => rw [refuses _ late, if_pos (by simp [Defect.cited])]
  case refine_2 => rw [refuses' _ outside, if_pos brief]

-- A label of more than four thousand digits is not allowed, but it cannot be cited either.
theorem long_label_not_cited :
    let node : Record := { costs := [(-10 ^ Decimal.digitLimit, 1.0)] }
    ¬WellFormed none [node] ∧
    load none [node] none = .error (.invalid (.unwritable Decimal.digitLimit)) none ∧
    ∀ d prior', load none [node] none ≠ .error (.defect d) prior' := by
  intro node
  have label : node.label = -10 ^ Decimal.digitLimit := rfl
  have pos : (0 : Int) < 10 ^ Decimal.digitLimit := Int.pow_pos (by decide)
  have outside : ¬(0 ≤ node.label ∧ ∀ k ∈ (none : Option Int), node.label ≤ k) := by
    rw [label]
    omega
  have amiss : Amiss none [node] (.labelOutside node.label none 0) :=
    .label (rfl : _ = [] ++ _) ⟨.nil, nofun⟩ rfl rfl outside
  have malformed : ¬WellFormed none [node] := fun formed =>
    outside (formed.labels node (List.mem_singleton_self node) rfl)
  have size (k : Nat) : (-10 ^ k : Int).natAbs = 10 ^ k :=
    (Int.natAbs_neg _).trans (Int.natAbs_pow 10 k)
  have long : ¬Decimal.writable node.label = true := by
    rw [Decimal.writable_iff, label, size]
    exact Nat.lt_irrefl _
  have refused : load none [node] none = .error (.invalid (.unwritable Decimal.digitLimit)) none := by
    have raised : load none [node] none = .error (Fault.raised (.defect _)) none :=
      load_of_defect (toGraph_eq_error.mpr amiss)
    rw [raised, Fault.raised_of_unwritable ⟨_, List.mem_cons_self, long⟩]
  exact ⟨malformed, refused, fun d prior' cited => by cases refused.symm.trans cited⟩

end CollectiveLabeling.Episode
