import CollectiveLabeling.Proofs.Episode.WellFormed

namespace CollectiveLabeling

open Step

namespace Prior

variable {p : Prior} {r : Record} {nodes : List Record}

@[simp]
theorem labels_note (p : Prior) (r : Record) : (p.note r).labels = p.labels := by
  simp only [note]
  split <;> rfl

theorem Full.note (full : p.Full) (r : Record) : (p.note r).Full := by
  simp only [Prior.note]
  split
  case isTrue => exact full
  case isFalse => simpa [Full, bump] using full

theorem note_of_labeled (labeled : r.isUnlabeled = false) : p.note r = p.bump r.label.toNat := by
  simp [Prior.note, labeled]

theorem total_foldl_note (labeled : ∀ r ∈ nodes, r.isUnlabeled = false) :
    (nodes.foldl note p).total = p.total + nodes.length := by
  induction nodes generalizing p
  case nil => rfl
  case cons r nodes hi =>
    have ⟨first, rest⟩ := List.forall_mem_cons.mp labeled
    rw [List.foldl_cons, hi rest, note_of_labeled first, List.length_cons]
    simp only [bump]
    omega

theorem observe_noted (full : p.Full) (labeled : r.isUnlabeled = false) (nonneg : 0 ≤ r.label)
    (le : r.label ≤ p.labels) : observe r.label p = .ok ⟨⟩ (p.note r) := by
  have lt : r.label.toNat < p.counts.size := by
    unfold Full at full
    omega
  have place := Index.place?_natCast lt
  rw [Int.toNat_of_nonneg nonneg] at place
  simp [observe, place, note_of_labeled labeled]

theorem observe_error (full : p.Full) (gt : ¬r.label ≤ p.labels) :
    observe r.label p = .error .outOfRange p := by
  have place : Index.place? p.counts.size r.label = none := by
    unfold Full at full
    exact Index.place?_eq_none_iff.mpr (.inr (by omega))
  simp [observe, place]

-- What becomes of nodes with labels that are put before a prior: it takes note of them all, or of those
-- before the first whose label it does not count.
inductive Observed (p : Prior) (nodes : List Record) : Prop
  | all : (∀ r ∈ nodes, r.label ≤ p.labels) →
    nodes.forM (fun r => observe r.label) p = .ok ⟨⟩ (nodes.foldl note p) → Observed p nodes
  | stopped (seen : List Record) {r : Record} {rest : List Record} :
    nodes = seen ++ r :: rest → (∀ s ∈ seen, s.label ≤ p.labels) → p.labels < r.label →
    nodes.forM (fun r => observe r.label) p = .error .outOfRange (seen.foldl note p) →
    Observed p nodes

theorem observed (full : p.Full) (labeled : ∀ r ∈ nodes, r.isUnlabeled = false)
    (nonneg : ∀ r ∈ nodes, 0 ≤ r.label) : p.Observed nodes := by
  induction nodes generalizing p
  case nil => exact .all (by simp) rfl
  case cons r nodes hi =>
    obtain ⟨first, labeled⟩ := List.forall_mem_cons.mp labeled
    obtain ⟨pos, nonneg⟩ := List.forall_mem_cons.mp nonneg
    have split : (r :: nodes).forM (fun r => observe r.label) =
        (observe r.label >>= fun _ => nodes.forM fun r => observe r.label) := rfl
    by_cases le : r.label ≤ p.labels
    case neg =>
      refine .stopped [] rfl (by simp) (Int.not_le.mp le) ?_
      rw [split]
      exact bind_error (observe_error full le)
    case pos =>
      have noted := observe_noted full first pos le
      cases hi (full.note r) labeled nonneg
      case all within done =>
        refine .all (List.forall_mem_cons.mpr ⟨le, by simpa using within⟩) ?_
        rw [split, bind_ok noted, done, List.foldl_cons]
      case stopped seen r' rest same within beyond failed =>
        refine .stopped (r :: seen) (by rw [same, List.cons_append])
          (List.forall_mem_cons.mpr ⟨le, by simpa using within⟩) (by simpa using beyond) ?_
        rw [split, bind_ok noted, failed, List.foldl_cons]

end Prior

namespace Episode

variable {bound : Option Int} {records : List Record} {g : Hypergraph} {p : Prior} {f : Fault}
  {prior' : Option Prior}

-- The nodes of which a prior takes note.
def labeled (records : List Record) : List Record :=
  (nodes records).filter (!·.isUnlabeled)

theorem isUnlabeled_of_labeled {r : Record} (h : r ∈ labeled records) : r.isUnlabeled = false := by
  simpa using (List.mem_filter.mp h).right

theorem WellFormed.range (h : WellFormed bound records) {r : Record} (hr : r ∈ labeled records) :
    0 ≤ r.label ∧ ∀ k ∈ bound, r.label ≤ k := by
  have ⟨mem, node⟩ := List.mem_filter.mp (List.mem_filter.mp hr).left
  exact h.labels r mem (by simpa using node)

-- What a failure to load an episode leaves of a prior: all of it if the episode is malformed, and if it
-- is not, what the nodes before one with too high a label have made of it.
inductive Left (p : Prior) (bound : Option Int) (records : List Record) (f : Fault)
    (prior' : Option Prior) : Prop
  | malformed {d : Defect} : ¬WellFormed (boundOf bound (some p)) records → f = Fault.raised (.defect d) →
    prior' = some p → Left p bound records f prior'
  | beyond {seen : List Record} {r : Record} {rest : List Record} :
    WellFormed (boundOf bound (some p)) records → f = .outOfRange →
    labeled records = seen ++ r :: rest → (∀ s ∈ seen, s.label ≤ p.labels) → p.labels < r.label →
    prior' = some (seen.foldl Prior.note p) → Left p bound records f prior'

theorem load_of_observed (h : toGraph (boundOf bound (some p)) records = .ok g) :
    load bound records (some p) =
      match (labeled records).forM (fun r => Prior.observe r.label) p with
      | .ok _ p' => .ok g (some p')
      | .error f p' => .error f (some p') := by
  have parts := (parts_of_toGraph h).left
  simp only [load, bind_apply, get_apply, h, within, observeNodes, parts, labeled]
  cases ((nodes records).filter (!·.isUnlabeled)).forM (fun r => Prior.observe r.label) p <;> rfl

theorem left_of_load_error (full : p.Full) (failed : load bound records (some p) = .error f prior') :
    Left p bound records f prior' := by
  cases hg : toGraph (boundOf bound (some p)) records
  case error d =>
    cases (load_of_defect hg).symm.trans failed
    refine .malformed (fun formed => ?_) rfl rfl
    have ⟨_, accepted⟩ := formed.toGraph_ok
    cases hg.symm.trans accepted
  case ok g =>
    have formed := wellFormed_of_toGraph hg
    rw [load_of_observed hg] at failed
    cases Prior.observed full (fun r => isUnlabeled_of_labeled) fun r hr => (formed.range hr).left
    case all done =>
      rw [done] at failed
      cases failed
    case stopped same within beyond stopped =>
      rw [stopped] at failed
      cases failed
      exact .beyond formed rfl same within beyond rfl

-- A node with too high a label is not loaded.
theorem exists_load_error (full : p.Full) (formed : WellFormed (boundOf bound (some p)) records)
    {r : Record} (hr : r ∈ labeled records) (beyond : p.labels < r.label) :
    ∃ f prior', load bound records (some p) = .error f prior' := by
  have ⟨g, hg⟩ := formed.toGraph_ok
  rw [load_of_observed hg]
  cases Prior.observed full (fun r => isUnlabeled_of_labeled) fun r hr => (formed.range hr).left
  case all within _ => exact absurd (within r hr) (Int.not_le.mpr beyond)
  case stopped stopped =>
    rw [stopped]
    exact ⟨_, _, rfl⟩

theorem Left.unchanged_iff (left : Left p bound records f prior') : prior' = some p ↔
    ¬WellFormed (boundOf bound (some p)) records ∨ ∀ r ∈ (labeled records).head?, p.labels < r.label := by
  cases left
  case malformed malformed _ same => exact iff_of_true same (.inl malformed)
  case beyond seen r rest formed _ same within beyond is =>
    subst is
    cases seen
    case nil => exact iff_of_true rfl (.inr (by simpa [same] using beyond))
    case cons s seen =>
      have all : ∀ s' ∈ s :: seen, s'.isUnlabeled = false := fun s' hs =>
        isUnlabeled_of_labeled (same ▸ List.mem_append_left _ hs)
      have total := Prior.total_foldl_note (p := p) all
      refine iff_of_false (fun same => ?_) ?_
      case refine_1 =>
        rw [Option.some.inj same, List.length_cons] at total
        omega
      case refine_2 =>
        rintro (malformed | first)
        case inl => exact malformed formed
        case inr =>
          have gt := first s (by simp [same])
          have le := within s (by simp)
          omega

theorem Left.unchanged (left : Left p bound records f prior')
    (covered : p.labels < 0 ∨ ∀ k ∈ bound, k ≤ p.labels) : prior' = some p := by
  refine left.unchanged_iff.mpr ?_
  cases left
  case malformed malformed _ _ => exact .inl malformed
  case beyond seen r rest formed _ same within beyond _ =>
    have range : ∀ s ∈ labeled records, 0 ≤ s.label ∧ (0 ≤ p.labels → s.label ≤ p.labels) := by
      intro s hs
      have ⟨nonneg, le⟩ := formed.range hs
      refine ⟨nonneg, fun counted => ?_⟩
      cases bound
      case none => exact le p.labels rfl
      case some k =>
        have top := covered.resolve_left (Int.not_lt.mpr counted) k rfl
        exact Int.le_trans (le k rfl) top
    have ⟨nonneg, le⟩ := range r (same ▸ List.mem_append_right _ List.mem_cons_self)
    have uncounted : p.labels < 0 := Int.not_le.mp fun counted => Int.not_le.mpr beyond (le counted)
    refine .inr fun s hs => ?_
    exact Int.lt_of_lt_of_le uncounted (range s (List.mem_of_mem_head? hs)).left

-- A node of which the prior takes note, before one with too high a label.
theorem exists_changed (full : p.Full) (counted : 0 ≤ p.labels) {k : Int} (above : p.labels < k) :
    ∃ records f prior', load (some k) records (some p) = .error f prior' ∧ prior' ≠ some p := by
  let low : Record := { costs := [(0, 1.0)] }
  let high : Record := { costs := [(k, 1.0)] }
  have nonneg : 0 ≤ k := by omega
  have formed : WellFormed (boundOf (some k) (some p)) [low, high] := {
    order   := by simp [low, high, Record.isEdge]
    labels  := by simpa [low, high, Record.isEdge, Record.label, boundOf] using nonneg
    members := by simp [low, high, Record.isEdge] }
  have mem : high ∈ labeled [low, high] := List.mem_cons_of_mem low List.mem_cons_self
  obtain ⟨f, prior', failed⟩ := exists_load_error full formed mem above
  refine ⟨[low, high], f, prior', failed, fun same => ?_⟩
  cases (left_of_load_error full failed).unchanged_iff.mp same
  case inl malformed => exact malformed formed
  case inr first => exact Int.not_le.mpr (first low rfl) counted

-- A failure to load an episode may leave a prior changed, if a higher label is allowed than the prior
-- counts and it counts any; and only then. What is left then is what the nodes before the first one with
-- too high a label have made of it.
theorem load_atomic_iff (full : p.Full) :
    (∀ records f prior', load bound records (some p) = .error f prior' →
      Left p bound records f prior' ∧
      (prior' = some p ↔ ¬WellFormed (boundOf bound (some p)) records ∨
        ∀ r ∈ (labeled records).head?, p.labels < r.label)) ∧
    ((∀ records f prior', load bound records (some p) = .error f prior' → prior' = some p) ↔
      p.labels < 0 ∨ ∀ k ∈ bound, k ≤ p.labels) := by
  refine ⟨fun records f prior' failed => ?_, fun atomic => ?_, fun covered records f prior' failed => ?_⟩
  case refine_1 =>
    have left := left_of_load_error full failed
    exact ⟨left, left.unchanged_iff⟩
  case refine_2 =>
    by_cases counted : p.labels < 0
    case pos => exact .inl counted
    case neg =>
      refine .inr fun k hk => Int.not_lt.mp fun above => ?_
      cases hk
      have ⟨records, f, prior', failed, changed⟩ := exists_changed full (Int.not_lt.mp counted) above
      exact changed (atomic records f prior' failed)
  case refine_3 => exact (left_of_load_error full failed).unchanged covered

-- A prior for one label.
theorem load_atomic_iff_single :
    let p : Prior := { labels := 1, counts := #[1, 1], total := 2 }
    p.Full ∧
    (∀ records f prior', load (some 1) records (some p) = .error f prior' → prior' = some p) ∧
    ¬∀ records f prior', load (some 2) records (some p) = .error f prior' → prior' = some p := by
  intro p
  have full : p.Full := Prior.full_ofLabels (rfl : Prior.ofLabels 1 = .ok p)
  have ⟨_, single⟩ := @load_atomic_iff (some 1) p full
  have ⟨_, double⟩ := @load_atomic_iff (some 2) p full
  exact ⟨full, single.mpr (by simp [p]), mt double.mp (by simp [p])⟩

theorem larger_bound_counts_in_part :
    let p : Prior := { labels := 1, counts := #[1, 1], total := 2 }
    Prior.ofLabels 1 = .ok p ∧
    load (some 2) [{ costs := [(1, 1.0)] }, { costs := [(2, 1.0)] }] (some p) =
      .error .outOfRange (some { labels := 1, counts := #[1, 2], total := 3 }) ∧
    ¬∀ records f prior', load (some 2) records (some p) = .error f prior' → prior' = some p := by
  intro p
  have failed : load (some 2) [{ costs := [(1, 1.0)] }, { costs := [(2, 1.0)] }] (some p) =
      .error .outOfRange (some { labels := 1, counts := #[1, 2], total := 3 }) := rfl
  refine ⟨rfl, failed, fun atomic => ?_⟩
  have total := congrArg (Option.map Prior.total) (atomic _ _ _ failed)
  exact absurd total (by decide)

end Episode
end CollectiveLabeling
