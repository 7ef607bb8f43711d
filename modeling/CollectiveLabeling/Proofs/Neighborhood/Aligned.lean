import CollectiveLabeling.Proofs.Fault
import CollectiveLabeling.Proofs.FeatureSpace
import CollectiveLabeling.Proofs.Hypergraph.Accepted
import CollectiveLabeling.Proofs.Neighborhood

namespace CollectiveLabeling

open Step

namespace Hypergraph

variable {g : Hypergraph} {n e : Int} {f : Fault}

theorem lookup_error {α : Type} {xs : Array α} {i : Int} (h : lookup xs i = .error f) :
    f = .outOfRange := by
  simp only [lookup] at h
  split at h <;> cases h
  rfl

theorem others_error (h : g.others n e = .error f) : f = .outOfRange :=
  lookup_error (Attempt.map_eq_error.mp (Attempt.map_eq_error.mp h))

-- A graph of records that were all read from a source in this layout.
def Built (space : FeatureSpace) (g : Hypergraph) : Prop :=
  ∃ bound records, Episode.toGraph bound records = .ok g ∧
    ∀ r ∈ records, ∃ source, Record.ofSource space source = .ok r

end Hypergraph

namespace Augmenter

variable {a : Augmenter} {g : Hypergraph} {pred : Array Int} {n e : Int}

-- Edges whose features can all be moved.
def Movable (space : FeatureSpace) (edges : Array Record) : Prop :=
  ∀ r ∈ edges, ∀ f ∈ r.visits, space.Aligned f.bucket

theorem move_ok {space : FeatureSpace} {f : Feature} (h : space.Aligned f.bucket) (bucket : Int)
    (count : Nat) : ∃ f', move space f bucket count = .ok f' := by
  simp [move, FeatureSpace.relocate, h]

theorem copies_ok {space : FeatureSpace} (t : Tally) {visits : List Feature}
    (h : ∀ f ∈ visits, space.Aligned f.bucket) : ∃ fs, copies space t visits = .ok fs := by
  simp only [copies]
  split
  case isTrue => exact ⟨[], rfl⟩
  case isFalse =>
    split
    case isTrue => exact Attempt.exists_mapM_eq_ok fun f hf => move_ok (h f hf) _ _
    case isFalse =>
      exact Attempt.exists_map_eq_ok <| Attempt.exists_mapM_eq_ok fun f hf =>
        Attempt.exists_mapM_eq_ok fun _ _ => move_ok (h f hf) _ _

theorem movable_of_built {space : FeatureSpace} (even : space.Even) (h : g.Built space) :
    Movable space g.edges := by
  intro r hr f hf
  have ⟨_, records, hg, sourced⟩ := h
  have mem : r ∈ records := Episode.records_toGraph hg ▸ Hypergraph.mem_records.mpr (.inr hr)
  have ⟨_, hs⟩ := sourced r mem
  have ⟨id, placed⟩ := (Record.placed_of_ofSource hs).visits f hf
  exact placed ▸ FeatureSpace.aligned_place_iff.mpr even id

-- What can go wrong in a neighborhood: a position is not there, or a feature cannot be moved.
def Stuck (a : Augmenter) (g : Hypergraph) (f : Fault) : Prop :=
  f = .outOfRange ∨ ∃ r ∈ g.edges, ∃ x ∈ r.visits, ¬a.space.Aligned x.bucket ∧
    f = a.space.misplacement x.bucket

section Faults

theorem move_error {space : FeatureSpace} {x : Feature} {bucket : Int} {count : Nat} {f : Fault}
    (h : move space x bucket count = .error f) :
    ¬space.Aligned x.bucket ∧ f = space.misplacement x.bucket := by
  by_cases aligned : space.Aligned x.bucket <;>
    simp [move, FeatureSpace.relocate, aligned] at h
  exact ⟨aligned, h.symm⟩

theorem copies_error {space : FeatureSpace} {t : Tally} {visits : List Feature} {f : Fault}
    (h : copies space t visits = .error f) :
    ∃ x ∈ visits, ¬space.Aligned x.bucket ∧ f = space.misplacement x.bucket := by
  simp only [copies] at h
  split at h
  case isTrue => cases h
  case isFalse =>
    split at h
    case isTrue =>
      have ⟨x, hx, he⟩ := Attempt.exists_of_mapM_eq_error h
      exact ⟨x, hx, move_error he⟩
    case isFalse =>
      have ⟨x, hx, hm⟩ := Attempt.exists_of_mapM_eq_error (Attempt.map_eq_error.mp h)
      have ⟨_, _, he⟩ := Attempt.exists_of_mapM_eq_error hm
      exact ⟨x, hx, move_error he⟩

theorem faults_add (bucket : Int) : Faults (· = .outOfRange) (Tally.add bucket) := by
  intro t f t' h
  cases hp : Index.place? t.cells.size bucket <;> simp [Tally.add, hp] at h
  exact h.left.symm

theorem faults_tally : Faults (· = .outOfRange) (a.tally g pred n e) := by
  refine Faults.bind (fun _ _ _ h => nomatch h) fun _ => ?_
  cases a.useStructure
  case false => exact faults_add 0
  case true =>
    refine (Faults.lift fun _ => Hypergraph.others_error).bind fun others => Faults.forM fun m _ => ?_
    exact (Faults.lift fun _ => Hypergraph.lookup_error).bind fun _ => faults_add _

theorem faults_lend : Faults (a.Stuck g) (a.lend g pred n e) := by
  refine Faults.bind (fun _ _ _ h => .inl (faults_tally _ _ _ h)) fun _ => ?_
  refine Faults.bind (fun _ _ _ h => nomatch h) fun t => ?_
  refine Faults.lift_bind (fun _ h => .inl (Hypergraph.lookup_error h)) fun r hr => Faults.lift ?_
  intro f hf
  have ⟨_, _, hm⟩ := Hypergraph.lookup_eq_ok.mp hr
  exact .inr ⟨r, Array.mem_of_getElem? hm, copies_error hf⟩

theorem faults_gather : Faults (a.Stuck g) (a.gather g pred n) := by
  refine (Faults.lift fun _ h => .inl (Hypergraph.lookup_error h)).bind fun es => ?_
  exact (Faults.mapM fun e _ => faults_lend).bind fun _ => Faults.pure _

theorem lent_stuck {f : Fault} (h : a.lent g pred n = .error f) : a.Stuck g f := by
  simp only [lent, outcome] at h
  cases hg : a.gather g pred n a.scratch <;> simp only [hg] at h <;> cases h
  exact faults_gather _ _ _ hg

-- Where all features can be moved, only positions can be wrong.
theorem lent_error (movable : Movable a.space g.edges) {f : Fault} (h : a.lent g pred n = .error f) :
    f = .outOfRange := by
  obtain outside | ⟨r, hr, x, hx, misaligned, _⟩ := lent_stuck h
  case inl => exact outside
  case inr => exact absurd (movable r hr x hx) misaligned

end Faults
end Augmenter

namespace Workbench

variable {w : Workbench} {n : Int} {pred : Array Int}

theorem augment_movable_error (movable : Augmenter.Movable w.augmenter.space w.graph.edges) {f : Fault}
    {u : Workbench} (h : augment n pred w = .error f u) :
    f = .outOfRange ∨
      ∃ t, w.augmenter.active = some t ∧ f = Fault.raised (.misuse (.stillActive t.node n)) := by
  cases active : w.augmenter.active
  case some t =>
    rw [augment_busy pred active] at h
    cases h
    exact .inr ⟨t, rfl, rfl⟩
  case none =>
    cases hn : w.graph.node n
    case error e =>
      rw [augment_error pred active hn] at h
      cases h
      exact .inl (Hypergraph.lookup_error hn)
    case ok r =>
      rw [augment_apply pred active hn] at h
      cases hl : w.augmenter.lent w.graph pred n <;> simp only [hl] at h <;> cases h
      exact .inl (Augmenter.lent_error movable hl)

-- Two nodes without features that are joined by an edge with a single one.
section Pair

def pairEdge (space : FeatureSpace) (id : Int) : Record :=
  Record.extend { costs := [(1, 1.0), (2, 1.0)] } (String.singleton 'a') [⟨1.0, space.place id⟩]

def pair (space : FeatureSpace) (id : Int) : Workbench where
  graph := Episode.graphOf ⟨#[{}, {}], #[pairEdge space id]⟩
  augmenter := { labels := 1, space, useStructure := true, scratch := { cells := #[0, 0] } }

theorem built_pair (space : FeatureSpace) (id : Int) : (pair space id).graph.Built space := by
  refine ⟨none, [{}, {}, pairEdge space id], rfl, fun r hr => ?_⟩
  simp only [List.mem_cons, List.not_mem_nil, or_false] at hr
  obtain rfl | rfl | rfl := hr
  case inr.inr =>
    let source : Record.Source := {
      costs    := [(.value 1, .value 1.0), (.value 2, .value 1.0)]
      features := [(String.singleton 'a', [(.value id, .value 1.0)])] }
    exact ⟨source, Record.ofSource_single rfl rfl rfl rfl⟩
  all_goals exact ⟨{}, rfl⟩

theorem tally_pair (space : FeatureSpace) (id : Int) :
    (pair space id).augmenter.tally (pair space id).graph #[1, 1] 0 0 (pair space id).augmenter.scratch =
      .ok ⟨⟩ ⟨#[1, 0], 1, 0⟩ := by
  have structured : (pair space id).augmenter.useStructure = true := rfl
  have others : (pair space id).graph.others 0 0 = .ok [1] := rfl
  have clear : (pair space id).augmenter.scratch.clear = ⟨#[0, 0], 0, 0⟩ := by
    simp [pair, Tally.clear]
  simp [Augmenter.tally, structured, others, clear, lift, Augmenter.countMembers, Tally.add,
    Hypergraph.lookup, Index.place?]

theorem augment_pair {space : FeatureSpace} {id : Int} (h : ¬space.Aligned (space.place id)) :
    ∃ u, augment 0 #[1, 1] (pair space id) = .error (space.misplacement (space.place id)) u := by
  have node : (pair space id).graph.node 0 = .ok {} := rfl
  have incident : (pair space id).graph.incident 0 = .ok [0] := rfl
  have edge : (pair space id).graph.edge 0 = .ok (pairEdge space id) := rfl
  have layout : (pair space id).augmenter.space = space := rfl
  have visits : (pairEdge space id).visits = [⟨1.0, space.place id⟩] := rfl
  have stuck : Augmenter.copies space ⟨#[1, 0], 1, 0⟩ (pairEdge space id).visits =
      .error (space.misplacement (space.place id)) := by
    simp [Augmenter.copies, visits, Augmenter.move, FeatureSpace.relocate, h]
  have lent : (pair space id).augmenter.lent (pair space id).graph #[1, 1] 0 =
      .error (space.misplacement (space.place id)) := by
    simp [Augmenter.lent, Augmenter.gather, Augmenter.lend, outcome, lift, incident, tally_pair, edge,
      layout, stuck]
  exact ⟨_, by rw [augment_apply #[1, 1] rfl node, lent]⟩

end Pair

-- Features are placed and moved below the mask in every layout. They keep to multiples of the stride,
-- and augmenting never meets one that does not, in the even layouts and in no others: in each of these
-- there is a graph and an idle augmenter that meets one.
theorem alignment_kept_iff (s : FeatureSpace) :
    (∀ id, 0 ≤ s.place id ∧ s.place id ≤ s.mask) ∧
    (∀ bucket label, s.Aligned bucket →
      ∃ moved, s.relocate bucket label = .ok moved ∧ 0 ≤ moved ∧ moved ≤ s.mask) ∧
    ((∀ id, s.Aligned (s.place id)) ↔ s.Even) ∧
    ((∀ bucket label moved, s.relocate bucket label = .ok moved → s.Aligned moved) ↔
      s.stride ∣ s.window ∨ s.window ∣ s.stride) ∧
    (s.Even → s.stride ∣ s.window ∨ s.window ∣ s.stride) ∧
    (s.Even → ∀ w : Workbench, w.augmenter.space = s → w.graph.Built s → ∀ n pred f u,
      augment n pred w = .error f u → f = .outOfRange ∨
        ∃ t, w.augmenter.active = some t ∧ f = Fault.raised (.misuse (.stillActive t.node n))) ∧
    (¬s.Even → ∃ w : Workbench, w.augmenter.space = s ∧ w.graph.Built s ∧ w.augmenter.active = none ∧
      ∃ n pred bucket u, ¬s.Aligned bucket ∧ augment n pred w = .error (s.misplacement bucket) u) := by
  refine ⟨fun id => ⟨s.fold_nonneg _, s.fold_le_mask _⟩, fun _ label h => FeatureSpace.relocate_range h label,
    FeatureSpace.aligned_place_iff, FeatureSpace.aligned_relocate_iff, FeatureSpace.Even.window, ?even,
    ?uneven⟩
  case even =>
    intro even w layout built n pred f u h
    exact augment_movable_error (layout ▸ Augmenter.movable_of_built even built) h
  case uneven =>
    intro uneven
    obtain ⟨id, misaligned⟩ := not_forall.mp (mt FeatureSpace.aligned_place_iff.mp uneven)
    have ⟨u, stuck⟩ := augment_pair misaligned
    exact ⟨pair s id, rfl, built_pair s id, rfl, 0, #[1, 1], _, u, misaligned, stuck⟩

theorem alignment_kept_standard :
    FeatureSpace.standard.Even ∧
    (∀ id, FeatureSpace.standard.Aligned (FeatureSpace.standard.place id)) ∧
    (∀ bucket label, FeatureSpace.standard.Aligned bucket →
      ∃ moved, FeatureSpace.standard.relocate bucket label = .ok moved ∧ 0 ≤ moved ∧
        moved ≤ FeatureSpace.standard.mask) ∧
    (pair .standard 1).graph.Built .standard ∧
    ∀ f u, augment 0 #[1, 1] (pair .standard 1) = .error f u → f = .outOfRange := by
  have even : FeatureSpace.standard.Even := .inl (Nat.one_dvd _)
  have built := built_pair .standard 1
  have ⟨_, moved, placed, _, _, augmented, _⟩ := alignment_kept_iff .standard
  refine ⟨even, placed.mpr even, moved, built, fun f u h => ?_⟩
  obtain eq | ⟨_, busy, _⟩ := augmented even _ rfl built 0 #[1, 1] f u h
  case inl => exact eq
  case inr => cases busy

-- Three weights do not go into two rows.
theorem three_weights_misalign :
    ∃ s, FeatureSpace.ofSettings { bits := 1, strideShift := 0, weights := 3 } = .ok s ∧
      s.place 1 = 1 ∧ ¬s.Aligned 1 ∧ s.Aligned 0 ∧ s.relocate 0 1 = .ok 1 ∧
      (pair s 1).graph.Built s ∧
      ∃ u, augment 0 #[1, 1] (pair s 1) = .error (.defect (.misaligned 1 3)) u := by
  let s : FeatureSpace := { bits := 1, strideShift := 0, weights := 3, pairs := [] }
  have placed : s.place 1 = 1 := by decide
  have misaligned : ¬s.Aligned 1 := by decide
  have aligned : s.Aligned 0 := by decide
  have moved : s.relocate 0 1 = .ok 1 := by
    have window : s.window = 2 := by decide
    have stride : s.stride = 3 := by decide
    rw [FeatureSpace.relocate_ok aligned, window, stride]
    rfl
  have cited : s.misplacement 1 = .defect (.misaligned 1 3) := by
    refine Fault.raised_of_writable fun n hn => Decimal.writable_of_lt ?_
    obtain rfl | rfl : n = 1 ∨ n = s.stride := by simpa [Fault.cited, Defect.cited] using hn
    all_goals decide
  have stuck := augment_pair (placed ▸ misaligned)
  rw [placed, cited] at stuck
  exact ⟨s, rfl, placed, misaligned, aligned, moved, built_pair s 1, stuck⟩

end Workbench
end CollectiveLabeling
