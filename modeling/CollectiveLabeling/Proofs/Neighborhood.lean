import CollectiveLabeling.Proofs.Hypergraph.Node
import CollectiveLabeling.Proofs.Step

namespace CollectiveLabeling

open Step

def Tally.Sized (size : Nat) (t : Tally) : Prop :=
  t.cells.size = size

namespace Augmenter

variable {a b : Augmenter} {g h : Hypergraph} {pred : Array Int} {n e : Int}

theorem keeps_add (size : Nat) (bucket : Int) : Keeps (Tally.Sized size) (Tally.add bucket) := by
  intro t ht
  cases ht
  cases hp : Index.place? t.cells.size bucket <;> simp [Tally.add, Tally.Sized, outcome, hp]

theorem keeps_tally (size : Nat) : Keeps (Tally.Sized size) (a.tally g pred n e) := by
  have hc := Keeps.modify (I := Tally.Sized size) (f := Tally.clear) <| by
    simp [Tally.Sized, Tally.clear]
  refine hc.bind fun _ => ?_
  split
  case isFalse => exact keeps_add size 0
  case isTrue =>
    refine (Keeps.lift _).bind fun others => Keeps.forM fun m _ => ?_
    exact (Keeps.lift _).bind fun _ => keeps_add size _

theorem keeps_lend (size : Nat) : Keeps (Tally.Sized size) (a.lend g pred n e) := by
  refine (keeps_tally size).bind fun _ => ?_
  refine Keeps.bind (fun _ ht => ht) fun t => ?_
  exact (Keeps.lift _).bind fun edge => Keeps.lift _

theorem keeps_gather (size : Nat) : Keeps (Tally.Sized size) (a.gather g pred n) := by
  refine (Keeps.lift _).bind fun es => ?_
  exact (Keeps.mapM fun e _ => keeps_lend size).bind fun _ => Keeps.pure _

theorem clear_congr {t t' : Tally} (hs : t.cells.size = t'.cells.size) : t.clear = t'.clear := by
  simp only [Tally.clear]
  congr 1
  apply Array.ext <;> simp [hs]

-- Each edge starts from a cleared tally, so of the one at hand only the number of cells matters.
theorem lend_congr {t t' : Tally} (hs : t.cells.size = t'.cells.size) :
    a.lend g pred n e t = a.lend g pred n e t' := by
  simp [lend, tally, clear_congr hs]

theorem mapM_lend_congr (es : List Int) {t t' : Tally} (hs : t.cells.size = t'.cells.size) :
    ((es.mapM (a.lend g pred n)).outcome t).1 = ((es.mapM (a.lend g pred n)).outcome t').1 := by
  cases es
  case nil => rfl
  case cons e es => simp [outcome, lend_congr hs]

theorem gather_tally_congr {t t' : Tally} (hs : t.cells.size = t'.cells.size) :
    ((a.gather g pred n).outcome t).1 = ((a.gather g pred n).outcome t').1 := by
  cases hi : g.incident n
  case error => simp [gather, outcome, hi, lift]
  case ok es =>
    have h : ((es.mapM (a.lend g pred n)).outcome t).1 = ((es.mapM (a.lend g pred n)).outcome t').1 :=
      mapM_lend_congr es hs
    simp only [gather, outcome, hi, lift, bind_apply, pure_apply] at h ⊢
    cases hr : es.mapM (a.lend g pred n) t <;> cases hr' : es.mapM (a.lend g pred n) t' <;>
      simp_all

-- The nodes of the graph take no part, and neither do the tokens handed out so far.
theorem gather_congr (hs : a.space = b.space) (hu : a.useStructure = b.useStructure)
    (he : g.edges = h.edges) (ha : g.adjacency = h.adjacency) :
    a.gather g pred n = b.gather h pred n := by
  simp [gather, lend, tally, Hypergraph.incident, Hypergraph.others, Hypergraph.members,
    Hypergraph.edge, hs, hu, he, ha]

-- What the edges at a node lend it.
def lent (a : Augmenter) (g : Hypergraph) (pred : Array Int) (n : Int) :
    Except Fault (List Feature) :=
  ((a.gather g pred n).outcome a.scratch).1

-- The tally after the edges at a node have been gone through.
def spent (a : Augmenter) (g : Hypergraph) (pred : Array Int) (n : Int) : Tally :=
  ((a.gather g pred n).outcome a.scratch).2

theorem spent_size : (a.spent g pred n).cells.size = a.scratch.cells.size :=
  keeps_gather _ _ rfl

theorem lent_congr (hs : a.space = b.space) (hu : a.useStructure = b.useStructure)
    (hc : a.scratch.cells.size = b.scratch.cells.size) (he : g.edges = h.edges)
    (ha : g.adjacency = h.adjacency) : a.lent g pred n = b.lent h pred n := by
  simp only [lent]
  rw [gather_congr hs hu he ha, gather_tally_congr hc]

end Augmenter

namespace Workbench

variable {w : Workbench} {n : Int} {pred : Array Int} {r : Record}

theorem setNode_eq (w : Workbench) (n : Int) (r : Record) :
    w.setNode n r = { w with graph := w.graph.setNode n r } := by
  cases hp : Index.place? w.graph.nodes.size n <;> simp [setNode, Hypergraph.setNode, hp]

theorem tokenOf_saves (w : Workbench) (n : Int) (r : Record) : r.Saves (w.tokenOf n r) :=
  ⟨rfl, rfl, rfl, rfl, rfl⟩

-- A node with the features that are lent to it.
def augmented (w : Workbench) (r : Record) (fs : List Feature) : Record :=
  w.augmenter.space.neighborPairs.foldl Record.cross (r.receive fs)

-- The token of an augmentation that lends so many features.
def tokenFor (w : Workbench) (n : Int) (r : Record) (fs : List Feature) : Augmentation :=
  { w.tokenOf n r with added := fs.length }

-- The bench while a node is augmented.
def laden (w : Workbench) (n : Int) (pred : Array Int) (r : Record) (fs : List Feature) :
    Workbench where
  graph := w.graph.setNode n (w.augmented r fs)
  augmenter := { w.augmenter with
    scratch := w.augmenter.spent w.graph pred n
    active := some (w.tokenFor n r fs)
    issued := w.augmenter.issued + 1 }

-- The bench after a node was augmented, or could not be, and the augmentation was taken back.
def rested (w : Workbench) (n : Int) (pred : Array Int) : Workbench :=
  match w.graph.node n with
  | .ok _ => {
      graph := w.graph.settle n
      augmenter := { w.augmenter with
        scratch := w.augmenter.spent w.graph pred n
        issued := w.augmenter.issued + 1 } }
  | .error _ => w

theorem rested_of_ok (h : w.graph.node n = .ok r) : w.rested n pred = {
    graph := w.graph.setNode n r.settled
    augmenter := { w.augmenter with
      scratch := w.augmenter.spent w.graph pred n
      issued := w.augmenter.issued + 1 } } := by
  simp [rested, h, Hypergraph.settle_of_ok h]

theorem rested_graph (w : Workbench) (n : Int) (pred : Array Int) :
    (w.rested n pred).graph = w.graph.settle n := by
  simp only [rested, Hypergraph.settle]
  split <;> simp_all

theorem rested_active (w : Workbench) (n : Int) (pred : Array Int) :
    (w.rested n pred).augmenter.active = w.augmenter.active := by
  simp only [rested]
  split <;> rfl

theorem begin_apply (idle : w.augmenter.active = none) (h : w.graph.node n = .ok r) :
    begin n w = .ok (w.tokenOf n r, r) { w with augmenter := { w.augmenter with
      active := some (w.tokenOf n r), issued := w.augmenter.issued + 1 } } := by
  simp [begin, idle, h, lift]

theorem begin_error {f : Fault} (idle : w.augmenter.active = none)
    (h : w.graph.node n = .error f) : begin n w = .error f w := by
  simp [begin, idle, h, lift]

theorem revert_apply {t : Augmentation} (active : w.augmenter.active = some t)
    (h : w.graph.node t.node = .ok r) :
    revert t w = .ok ⟨⟩ ((w.setNode t.node (r.restore t)).setActive none) := by
  simp [revert, active, h, lift]

theorem gather_apply (n : Int) (pred : Array Int) (w : Workbench) :
    gather n pred w = match w.augmenter.lent w.graph pred n with
      | .ok fs => .ok fs { w with augmenter := { w.augmenter with
          scratch := w.augmenter.spent w.graph pred n } }
      | .error f => .error f { w with augmenter := { w.augmenter with
          scratch := w.augmenter.spent w.graph pred n } } := by
  simp only [gather, within, Augmenter.lent, Augmenter.spent, outcome, bind_apply, get_apply]
  cases w.augmenter.gather w.graph pred n w.augmenter.scratch <;> rfl

theorem revert_laden (pred : Array Int) (idle : w.augmenter.active = none) (h : w.graph.node n = .ok r)
    (fs : List Feature) :
    revert (w.tokenFor n r fs) (w.laden n pred r fs) = .ok ⟨⟩ (w.rested n pred) := by
  have hn : (w.laden n pred r fs).graph.node n = .ok (w.augmented r fs) :=
    Hypergraph.node_setNode h _
  have hs : r.Saves (w.tokenFor n r fs) := ⟨rfl, rfl, rfl, rfl, rfl⟩
  rw [revert_apply rfl hn, rested_of_ok h, setNode_eq, augmented, hs.restore_augmented]
  simp [laden, setActive, tokenFor, tokenOf, Hypergraph.setNode_setNode, idle]

theorem augment_apply (pred : Array Int) (idle : w.augmenter.active = none) (h : w.graph.node n = .ok r) :
    augment n pred w = match w.augmenter.lent w.graph pred n with
      | .ok fs => .ok (w.tokenFor n r fs) (w.laden n pred r fs)
      | .error f => .error f (w.rested n pred) := by
  have hg := gather_apply n pred { w with augmenter := { w.augmenter with
    active := some (w.tokenOf n r), issued := w.augmenter.issued + 1 } }
  have hl : Augmenter.lent { w.augmenter with
    active := some (w.tokenOf n r), issued := w.augmenter.issued + 1 } w.graph pred n
      = w.augmenter.lent w.graph pred n := Augmenter.lent_congr rfl rfl rfl rfl rfl
  have hp : Augmenter.spent { w.augmenter with
    active := some (w.tokenOf n r), issued := w.augmenter.issued + 1 } w.graph pred n
      = w.augmenter.spent w.graph pred n := rfl
  simp only [hl, hp] at hg
  simp only [augment, bind_apply, begin_apply idle h, onFault, hg]
  cases w.augmenter.lent w.graph pred n
  case ok fs => simp [inject, setNode_eq, setActive, laden, augmented, tokenFor]
  case error f =>
    have hr := (w.tokenOf_saves n r).restore_self
    simp only [outcome]
    rw [revert_apply rfl h, rested_of_ok h, setNode_eq, hr]
    simp [setActive, tokenOf, idle]

theorem augment_busy {t : Augmentation} (pred : Array Int) (active : w.augmenter.active = some t) :
    augment n pred w = .error (Fault.raised (.misuse (.stillActive t.node n))) w := by
  simp [augment, begin, active]

theorem augment_error {f : Fault} (pred : Array Int) (idle : w.augmenter.active = none)
    (h : w.graph.node n = .error f) : augment n pred w = .error f w := by
  simp [augment, begin_error idle h]

end Workbench
end CollectiveLabeling
