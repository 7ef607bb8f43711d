import CollectiveLabeling.Proofs.Neighborhood.Aligned
import CollectiveLabeling.Proofs.Neighborhood.Restored

namespace CollectiveLabeling.Workbench

open Step

-- A bench after some calls, with the tokens handed out so far. They may be brought back in any order
-- and as often as one likes; the scratch is only given up while nothing is active.
inductive Called (start : Workbench) : List Augmentation → Workbench → Prop where
  | refl : Called start [] start
  | augmented {ts : List Augmentation} {w u : Workbench} {t : Augmentation} (n : Int)
      (pred : Array Int) : Called start ts w → augment n pred w = .ok t u → Called start (t :: ts) u
  | refused {ts : List Augmentation} {w u : Workbench} {f : Fault} (n : Int)
      (pred : Array Int) : Called start ts w → augment n pred w = .error f u → Called start ts u
  | reverted {ts : List Augmentation} {w : Workbench} (t : Augmentation) : Called start ts w →
      t ∈ ts → Called start ts (outcome (revert t) w).2
  | released {ts : List Augmentation} {w : Workbench} : Called start ts w →
      w.augmenter.active = none → Called start ts (outcome release w).2

-- What a bench has lent to the nodes of a graph. The serial numbers tell all tokens apart, and the
-- token of the active augmentation leads back to the graph.
structure Lends (g : Hypergraph) (ts : List Augmentation) (w : Workbench) : Prop where
  distinct : ∀ t ∈ ts, ∀ t' ∈ ts, t.serial = t'.serial → t = t'
  issued   : ∀ t ∈ ts, t.serial < w.augmenter.issued
  idle     : w.augmenter.active = none → w.graph = g
  busy     : ∀ t, w.augmenter.active = some t → t ∈ ts ∧ ∃ r r', g.node t.node = .ok r ∧
    w.graph = g.setNode t.node r' ∧ r'.restore t = r

variable {w u : Workbench} {g : Hypergraph} {ts : List Augmentation} {t : Augmentation} {n : Int}
  {pred : Array Int} {f : Fault}

theorem revert_other (h : ∀ t', w.augmenter.active = some t' → t'.serial ≠ t.serial) :
    revert t w = .error (Fault.raised (.misuse (.notActive t.node))) w := by
  have inactive : w.augmenter.active.map (·.serial) ≠ some t.serial := by
    simpa using h
  simp only [revert, bind_apply, get_apply, if_neg inactive]
  rfl

theorem augment_eq_ok (h : augment n pred w = .ok t u) : w.augmenter.active = none ∧
    ∃ r fs, w.graph.node n = .ok r ∧ t = w.tokenFor n r fs ∧ u = w.laden n pred r fs := by
  cases active : w.augmenter.active
  case some t => cases (augment_busy pred active).symm.trans h
  case none =>
    cases hn : w.graph.node n
    case error f => cases (augment_error pred active hn).symm.trans h
    case ok r =>
      rw [augment_apply pred active hn] at h
      cases hl : w.augmenter.lent w.graph pred n <;> simp only [hl] at h <;> cases h
      case ok fs => exact ⟨rfl, r, fs, rfl, rfl, rfl⟩

theorem augment_eq_error (h : augment n pred w = .error f u) :
    u = w ∨ w.augmenter.active = none ∧ u = w.rested n pred := by
  cases active : w.augmenter.active
  case some t =>
    cases (augment_busy pred active).symm.trans h
    exact .inl rfl
  case none =>
    cases hn : w.graph.node n
    case error f =>
      cases (augment_error pred active hn).symm.trans h
      exact .inl rfl
    case ok r =>
      rw [augment_apply pred active hn] at h
      cases hl : w.augmenter.lent w.graph pred n <;> simp only [hl] at h <;> cases h
      exact .inr ⟨rfl, rfl⟩

namespace Lends

section Revert

variable (h : Lends g ts w)
include h

theorem revert_active (active : w.augmenter.active = some t) :
    revert t w = .ok ⟨⟩ (({ w with graph := g }).setActive none) := by
  have ⟨_, r, r', node, graph, restored⟩ := h.busy t active
  have hn : w.graph.node t.node = .ok r' := graph ▸ Hypergraph.node_setNode node r'
  rw [revert_apply active hn, setNode_eq, restored, graph, Hypergraph.setNode_setNode,
    Hypergraph.setNode_self node]

theorem revert_inactive (ht : t ∈ ts) (inactive : w.augmenter.active ≠ some t) :
    revert t w = .error (Fault.raised (.misuse (.notActive t.node))) w := by
  refine revert_other fun t' active same => inactive ?_
  rw [active, h.distinct t' (h.busy t' active).left t ht same]

theorem revert_eq_ok (ht : t ∈ ts) (hr : revert t w = .ok ⟨⟩ u) : w.augmenter.active = some t := by
  refine Classical.byContradiction fun inactive => ?_
  cases (h.revert_inactive ht inactive).symm.trans hr

end Revert

-- Only the tally and the count of the tokens can differ after an augmentation that was refused.
theorem refused (filed : ∀ r ∈ g.nodes, r.Filed) (h : Lends g ts w) (ha : augment n pred w = .error f u) :
    u.graph = w.graph ∧ u.augmenter.active = w.augmenter.active ∧
      w.augmenter.issued ≤ u.augmenter.issued := by
  obtain rfl | ⟨idle, rfl⟩ := augment_eq_error ha
  case inl => exact ⟨rfl, rfl, Nat.le_refl _⟩
  case inr =>
    have settled : w.graph.settle n = w.graph := by
      rw [h.idle idle, Hypergraph.settle_eq_self filed]
    refine ⟨(w.rested_graph n pred).trans settled, w.rested_active n pred, ?_⟩
    simp only [rested]
    split
    case h_1 => exact Nat.le_succ _
    case h_2 => exact Nat.le_refl _

theorem of_eq (h : Lends g ts w) (graph : u.graph = w.graph)
    (active : u.augmenter.active = w.augmenter.active)
    (issued : w.augmenter.issued ≤ u.augmenter.issued) : Lends g ts u where
  distinct := h.distinct
  issued t ht := Nat.lt_of_lt_of_le (h.issued t ht) issued
  idle := by simpa only [graph, active] using h.idle
  busy := by simpa only [graph, active] using h.busy

theorem augmented (filed : ∀ r ∈ g.nodes, r.Filed) (h : Lends g ts w)
    (ha : augment n pred w = .ok t u) : Lends g (t :: ts) u := by
  obtain ⟨idle, r, fs, node, rfl, rfl⟩ := augment_eq_ok ha
  have graph := h.idle idle
  subst graph
  refine ⟨?_, ?_, ?_, ?_⟩
  case refine_1 =>
    have fresh (t' : Augmentation) (ht : t' ∈ ts) : t'.serial ≠ w.augmenter.issued :=
      Nat.ne_of_lt (h.issued t' ht)
    intro t₁ h₁ t₂ h₂ same
    obtain rfl | h₁ := List.mem_cons.mp h₁ <;> obtain rfl | h₂ := List.mem_cons.mp h₂
    case inl.inl => rfl
    case inl.inr => exact absurd same.symm (fresh t₂ h₂)
    case inr.inl => exact absurd same (fresh t₁ h₁)
    case inr.inr => exact h.distinct t₁ h₁ t₂ h₂ same
  case refine_2 =>
    intro t' ht
    obtain rfl | ht := List.mem_cons.mp ht
    case inl => exact Nat.lt_succ_self _
    case inr => exact Nat.lt_succ_of_lt (h.issued t' ht)
  case refine_3 => exact fun none => nomatch none
  case refine_4 =>
    rintro _ ⟨⟩
    have saves : r.Saves (w.tokenFor n r fs) := ⟨rfl, rfl, rfl, rfl, rfl⟩
    refine ⟨List.mem_cons_self, r, w.augmented r fs, node, rfl, ?_⟩
    rw [augmented, saves.restore_augmented, (filed r (Hypergraph.mem_of_node node)).settled_eq]

theorem reverted (h : Lends g ts w) (ht : t ∈ ts) : Lends g ts (outcome (revert t) w).2 := by
  by_cases active : w.augmenter.active = some t
  case neg => simpa [outcome, h.revert_inactive ht active] using h
  case pos =>
    simp only [outcome, h.revert_active active]
    exact ⟨h.distinct, h.issued, fun _ => rfl, fun _ none => by cases none⟩

theorem released (h : Lends g ts w) (idle : w.augmenter.active = none) :
    Lends g ts (outcome release w).2 :=
  h.of_eq rfl idle.symm (Nat.le_refl _)

end Lends

theorem Called.lends {start : Workbench} (filed : ∀ r ∈ start.graph.nodes, r.Filed)
    (idle : start.augmenter.active = none) (called : Called start ts w) : Lends start.graph ts w := by
  induction called
  case refl => exact ⟨by simp, by simp, fun _ => rfl, by simp [idle]⟩
  case augmented ha hi => exact hi.augmented filed ha
  case refused ha hi =>
    have ⟨graph, active, issued⟩ := hi.refused filed ha
    exact hi.of_eq graph active issued
  case reverted ht hi => exact hi.reverted ht
  case released idle hi => exact hi.released idle

theorem filed_of_toGraph {bound : Option Int} {records : List Record}
    (sourced : ∀ r ∈ records, ∃ space source, Record.ofSource space source = .ok r)
    (built : Episode.toGraph bound records = .ok g) : ∀ r ∈ g.nodes, r.Filed := by
  intro r hr
  have mem : r ∈ records := Episode.records_toGraph built ▸ Hypergraph.mem_records.mpr (.inl hr)
  have ⟨_, _, read⟩ := sourced r mem
  exact Record.filed_of_ofSource read

-- Over a graph that was read, at most one token can be brought back at any time. While there is none
-- the graph is the one that was read. While there is one it differs in the one node, and bringing that
-- token back restores it. Whatever is refused leaves the graph and the active token alone.
theorem undo_protocol {bound : Option Int} {records : List Record} {labels : Int}
    {space : FeatureSpace} {useStructure : Bool} {a : Augmenter}
    (sourced : ∀ r ∈ records, ∃ space source, Record.ofSource space source = .ok r)
    (built : Episode.toGraph bound records = .ok g)
    (fresh : Augmenter.ofLabels labels space useStructure = .ok a) (called : Called ⟨g, a⟩ ts w) :
    (∀ t ∈ ts, ∀ t' ∈ ts, ∀ u u', revert t w = .ok ⟨⟩ u → revert t' w = .ok ⟨⟩ u' → t = t') ∧
    (w.augmenter.active = none →
      w.graph = g ∧ ∀ t ∈ ts, revert t w = .error (Fault.raised (.misuse (.notActive t.node))) w) ∧
    (∀ t, w.augmenter.active = some t →
      t ∈ ts ∧
      (∃ r r', g.node t.node = .ok r ∧ w.graph = g.setNode t.node r') ∧
      (∃ u, revert t w = .ok ⟨⟩ u ∧ u.graph = g ∧ u.augmenter.active = none) ∧
      (∀ t' ∈ ts, t' ≠ t → revert t' w = .error (Fault.raised (.misuse (.notActive t'.node))) w) ∧
      ∀ n pred, augment n pred w = .error (Fault.raised (.misuse (.stillActive t.node n))) w) ∧
    ∀ n pred f u, augment n pred w = .error f u →
      u.graph = w.graph ∧ u.augmenter.active = w.augmenter.active := by
  have filed := filed_of_toGraph sourced built
  have idle : a.active = none := by
    simp only [Augmenter.ofLabels] at fresh
    split at fresh <;> cases fresh
    rfl
  have lends := called.lends filed idle
  refine ⟨?_, ?_, ?_, ?_⟩
  case refine_1 =>
    intro t ht t' ht' u u' hr hr'
    have active := lends.revert_eq_ok ht hr
    rw [lends.revert_eq_ok ht' hr', Option.some.injEq] at active
    exact active.symm
  case refine_2 =>
    intro none
    exact ⟨lends.idle none, fun t ht => lends.revert_inactive ht (by simp [none])⟩
  case refine_3 =>
    intro t active
    have ⟨ht, r, r', node, graph, _⟩ := lends.busy t active
    refine ⟨ht, ⟨r, r', node, graph⟩, ⟨_, lends.revert_active active, rfl, rfl⟩, fun t' ht' ne => ?_,
      fun n pred => augment_busy pred active⟩
    exact lends.revert_inactive ht' fun active' => ne (Option.some.inj (active'.symm.trans active))
  case refine_4 =>
    intro n pred f u refused
    have ⟨graph, active, _⟩ := lends.refused filed refused
    exact ⟨graph, active⟩

theorem lent_pair {space : FeatureSpace} {id : Int} (h : space.Aligned (space.place id)) :
    ∃ moved, (pair space id).augmenter.lent (pair space id).graph #[1, 1] 0 = .ok [⟨1.0, moved⟩] := by
  have incident : (pair space id).graph.incident 0 = .ok [0] := rfl
  have edge : (pair space id).graph.edge 0 = .ok (pairEdge space id) := rfl
  have layout : (pair space id).augmenter.space = space := rfl
  have visits : (pairEdge space id).visits = [⟨1.0, space.place id⟩] := rfl
  have ⟨moved, relocated, _⟩ := FeatureSpace.relocate_range h 0
  have copied : Augmenter.copies space ⟨#[1, 0], 1, 0⟩ (pairEdge space id).visits = .ok [⟨1.0, moved⟩] := by
    simp [Augmenter.copies, visits, Augmenter.move, Augmenter.weigh, relocated]
  refine ⟨moved, ?_⟩
  simp [Augmenter.lent, Augmenter.gather, Augmenter.lend, outcome, lift, incident, tally_pair, edge,
    layout, copied]

-- The first of two nodes is lent a feature. While it holds it, neither of them can be augmented, and the
-- second stays as it is.
theorem undo_protocol_pair :
    let start := pair .standard 1
    ∃ t w u, Called start [t] w ∧ t.added = 1 ∧ w.augmenter.active = some t ∧
      (∃ r, w.graph.node 0 = .ok r ∧ r.count = 1) ∧ w.graph.node 1 = start.graph.node 1 ∧
      augment 1 #[1, 1] w = .error (.misuse (.stillActive 0 1)) w ∧
      revert t w = .ok ⟨⟩ u ∧ u.graph = start.graph ∧ u.augmenter.active = none := by
  intro start
  have ⟨bound, records, built, read⟩ := built_pair .standard 1
  have sourced : ∀ r ∈ records, ∃ space source, Record.ofSource space source = .ok r :=
    fun r hr => ⟨.standard, read r hr⟩
  have aligned := FeatureSpace.aligned_place_iff.mpr (.inl (Nat.one_dvd _) : FeatureSpace.standard.Even) 1
  have ⟨moved, lent⟩ := lent_pair aligned
  have node : start.graph.node 0 = .ok {} := rfl
  have first := augment_apply #[1, 1] rfl node
  rw [lent] at first
  have once : Called start [_] _ := Called.refl.augmented 0 #[1, 1] first
  have twice := once.refused 1 #[1, 1] (augment_busy #[1, 1] rfl)
  have fresh : Augmenter.ofLabels 1 .standard true = .ok start.augmenter := rfl
  have ⟨_, _, busy, _⟩ := undo_protocol sourced built fresh twice
  have ⟨_, _, ⟨u, reverted, graph, idle⟩, _, stuck⟩ := busy _ rfl
  have cited : Fault.raised (.misuse (.stillActive 0 1)) = .misuse (.stillActive 0 1) := by
    refine Fault.raised_of_writable fun n hn => Decimal.writable_of_lt ?_
    obtain rfl | rfl : n = 0 ∨ n = 1 := by simpa [Fault.cited, Misuse.cited] using hn
    all_goals decide
  have refused := stuck 1 #[1, 1]
  exact ⟨_, _, u, twice, rfl, rfl, ⟨_, rfl, rfl⟩, rfl, cited ▸ refused, reverted, graph, idle⟩

end CollectiveLabeling.Workbench
