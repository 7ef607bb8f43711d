import CollectiveLabeling.Proofs.Scene.Run
import CollectiveLabeling.Proofs.Sweep

namespace CollectiveLabeling

open Step

namespace Prior

variable {p : Prior} {labels : Nat}

-- A prior that counts all labels up to the last, zero included.
def Counts (p : Prior) (labels : Nat) : Prop :=
  p.counts.size = labels + 1

theorem observe_ok (h : p.Counts labels) {label : Int} (nonneg : 0 ≤ label) (le : label ≤ labels) :
    observe label p = .ok ⟨⟩ (p.bump label.toNat) := by
  obtain ⟨l, rfl⟩ := Int.eq_ofNat_of_zero_le nonneg
  have hl : l < p.counts.size := by
    unfold Counts at h
    omega
  simp [observe, Index.place?_natCast hl]

-- The prior after it has taken note of a node. A node without a label is passed over.
def note (p : Prior) (r : Record) : Prior :=
  if r.isUnlabeled then p else p.bump r.label.toNat

theorem Counts.note (h : p.Counts labels) (r : Record) : (p.note r).Counts labels := by
  simp only [Prior.note]
  split
  case isTrue => exact h
  case isFalse => simpa [Counts, Prior.bump] using h

theorem Counts.foldl_note (h : p.Counts labels) (nodes : List Record) :
    (nodes.foldl Prior.note p).Counts labels := by
  induction nodes generalizing p
  case nil => exact h
  case cons r nodes hi => exact hi (h.note r)

end Prior

namespace Episode

variable {records : List Record} {g : Hypergraph} {labels : Nat} {p : Prior}

theorem observeNodes_ok {nodes : List Record} (h : p.Counts labels)
    (hl : ∀ r ∈ nodes, 0 ≤ r.label ∧ r.label ≤ labels) :
    observeNodes nodes p = .ok ⟨⟩ (nodes.foldl Prior.note p) := by
  induction nodes generalizing p
  case nil => rfl
  case cons r nodes hi =>
    have hr := hl r (by simp)
    have rest := hi (h.note r) fun r hm => hl r (by simp [hm])
    rw [List.foldl_cons, ← rest]
    cases hu : r.isUnlabeled
    case true => simp [observeNodes, Prior.note, hu]
    case false =>
      have he : observeNodes (r :: nodes) = (Prior.observe r.label >>= fun _ => observeNodes nodes) := by
        simp [observeNodes, hu]
      rw [he, bind_ok (Prior.observe_ok h hr.left hr.right)]
      simp [Prior.note, hu]

theorem load_ok (h : p.Counts labels) (hg : toGraph (some labels) records = .ok g) :
    load (some labels) records (some p) = .ok g (some (g.nodes.toList.foldl Prior.note p)) := by
  have ho := observeNodes_ok h fun r (hr : r ∈ g.nodes.toList) =>
    (sound_toGraph hg).label r (Array.mem_toList_iff.mp hr)
  have hb : boundOf (some (labels : Int)) (some p) = some (labels : Int) := rfl
  refine (bind_ok rfl).trans ?_
  simp [hb, hg, within, ho]

theorem load_error {d : Defect} (hd : toGraph (some labels) records = .error d) :
    load (some labels) records (some p) = .error (Fault.raised (.defect d)) (some p) := by
  have hb : boundOf (some (labels : Int)) (some p) = some (labels : Int) := rfl
  simp [load, hb, hd]

end Episode

namespace Scene

variable {σ : Type} {s : Scene σ} {records : List Record} {g : Hypergraph}

def withPrior (s : Scene σ) (prior : Prior) : Scene σ :=
  { s with labeling := { s.labeling with prior } }

def withFrame (s : Scene σ) (frame : Frame) : Scene σ :=
  { s with labeling := { s.labeling with frame := some frame } }

-- The prior is lent to the loading of an episode and taken back.
def onPrior {α : Type} (x : Step (Option Prior) α) : Step (Scene σ) α :=
  Step.within (fun s => some s.labeling.prior)
    (fun prior s => { s with labeling := { s.labeling with prior := prior.getD s.labeling.prior } }) x

theorem onPrior_ok {α : Type} {x : Step (Option Prior) α} {a : α} {prior : Prior}
    (h : x (some s.labeling.prior) = .ok a (some prior)) :
    onPrior x s = .ok a (s.withPrior prior) := by
  simp [onPrior, within, h, withPrior]

theorem onPrior_error {α : Type} {x : Step (Option Prior) α} {e : Fault} {prior : Prior}
    (h : x (some s.labeling.prior) = .error e (some prior)) :
    onPrior x s = .error e (s.withPrior prior) := by
  simp [onPrior, within, h, withPrior]

-- The prior after it has taken note of all nodes of a graph.
def bookedPrior (s : Scene σ) (g : Hypergraph) : Prior :=
  g.nodes.toList.foldl Prior.note s.labeling.prior

theorem load_ok (h : s.labeling.prior.Counts s.labeling.labels)
    (hg : Episode.toGraph (some s.labeling.labels) records = .ok g) : ∃ clock entries,
    load records s = .ok g ((s.withPrior (s.bookedPrior g)).noted clock entries) := by
  have ⟨started, clock, hr⟩ := s.clock.read_ok
  have ⟨_, clock', he⟩ := clock.elapsed_ok started
  have hp := onPrior_ok (s := { s with clock }) (Episode.load_ok h hg)
  refine ⟨clock', ?_⟩
  apply Exists.intro
  refine (bind_ok (onClock_ok hr)).trans <| (bind_ok rfl).trans ?_
  exact (bind_ok hp).trans <| (bind_ok (onClock_ok he)).trans <| (bind_ok rfl).trans rfl

theorem load_error {d : Defect}
    (hd : Episode.toGraph (some s.labeling.labels) records = .error d) :
    ∃ clock entries, load records s = .error (Fault.raised (.defect d)) (s.noted clock entries) := by
  have ⟨started, clock, hr⟩ := s.clock.read_ok
  have hp := onPrior_error (s := { s with clock }) (Episode.load_error hd)
  refine ⟨clock, s.labeling.entries, (bind_ok (onClock_ok hr)).trans <| (bind_ok rfl).trans ?_⟩
  exact bind_error hp

-- An episode that is accepted takes the place of the one before.
theorem setup_ok (h : s.labeling.prior.Counts s.labeling.labels)
    (hg : Episode.toGraph (some s.labeling.labels) records = .ok g) :
    ∃ order clock entries, Sweep.order g = .ok order ∧ setup records s = .ok ⟨⟩
      (((s.withPrior (s.bookedPrior g)).withFrame (s.labeling.frameOf g order)).noted clock entries) := by
  have ⟨started, clock₁, hr⟩ := s.clock.read_ok
  have ⟨clock₂, _, hl⟩ := load_ok (s := { s with clock := clock₁ }) h hg
  have ⟨_, clock₃, he⟩ := clock₂.elapsed_ok started
  have ⟨order, ho, _⟩ := Sweep.order_perm (Episode.sound_toGraph hg)
  refine ⟨order, clock₃, ?_⟩
  apply Exists.intro
  refine ⟨ho, logDefect_ok <| (bind_ok (onClock_ok hr)).trans <| (bind_ok hl).trans ?_⟩
  rw [ho]
  exact (bind_ok rfl).trans <| (bind_ok rfl).trans <| (bind_ok (onClock_ok he)).trans rfl

-- An episode that is refused leaves everything as it was.
theorem setup_error {d : Defect}
    (hd : Episode.toGraph (some s.labeling.labels) records = .error d) :
    ∃ clock entries, setup records s = .error (Fault.raised (.defect d)) (s.noted clock entries) := by
  have ⟨started, clock₁, hr⟩ := s.clock.read_ok
  have ⟨clock₂, entries, hl⟩ := load_error (s := { s with clock := clock₁ }) hd
  refine ⟨clock₂, logDefect_error (t := noted { s with clock := clock₁ } clock₂ entries) ?_⟩
  exact (bind_ok (onClock_ok hr)).trans <| bind_error hl

end Scene
end CollectiveLabeling
