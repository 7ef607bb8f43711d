import CollectiveLabeling.Hypergraph
import CollectiveLabeling.Step

/-!
Features from the labels of neighbors.

Before a node is decided, each edge at it lends it a copy of the edge's features, moved to buckets
that depend on the labels the other members carry. One other member moves the features unchanged;
several move one copy for each label that occurs, weighted by how often. All copies land in one
namespace of the node and are taken out again by `revert`.
-/

namespace CollectiveLabeling

def neighborNamespace : String :=
  String.singleton (Char.ofNat 131)

def labelStride : Int := 348919043

-- Moved buckets are kept within a word of thirty-two bits.
def wordSize : Int := 4294967296

namespace FeatureSpace

-- Why a bucket that is off the stride cannot be moved.
def misplacement (s : FeatureSpace) (bucket : Int) : Fault :=
  Fault.raised (.defect (.misaligned bucket s.stride))

-- Moves a bucket by `label` label strides, within thirty-two bits.
def relocate (s : FeatureSpace) (bucket label : Int) : Except Fault Int :=
  if s.Aligned bucket then
    .ok (s.fold (((bucket / s.stride + labelStride * label) * s.stride) % wordSize))
  else .error (s.misplacement bucket)

end FeatureSpace

-- What is needed to take an augmentation back. The serial number tells it from every other one.
structure Augmentation where
  serial : Nat
  node : Int
  active : List String
  features : Option (List Feature)
  squares : Option Float
  total : Float
  count : Int
  added : Nat := 0

-- How often each label bucket occurs among the other members of an edge.
structure Tally where
  cells : Array Nat
  total : Nat := 0
  last : Int := 0

namespace Tally

def clear (t : Tally) : Tally where
  cells := t.cells.map fun _ => 0

def add (bucket : Int) : Step Tally Unit := do
  let t ← get
  match Index.place? t.cells.size bucket with
  | some place => set { cells := t.cells.modify place (· + 1), total := t.total + 1, last := bucket : Tally }
  | none => throw .outOfRange

-- The buckets that occur, with their counts, in ascending order.
def occurring (t : Tally) : List (Int × Nat) :=
  (t.cells.toList.zipIdx.filter (·.1 ≠ 0)).map fun (count, bucket) => ((bucket : Int), count)

end Tally

structure Augmenter where
  labels : Int
  space : FeatureSpace
  useStructure : Bool
  scratch : Tally
  active : Option Augmentation := none
  issued : Nat := 0

namespace Augmenter

def ofLabels (labels : Int) (space : FeatureSpace) (useStructure : Bool) : Except Fault Augmenter :=
  if labels < -1 then .error (.invalid .negativeSize)
  else .ok {
    labels, space, useStructure
    scratch := { cells := Array.replicate (labels + 1).toNat 0 } }

def release (a : Augmenter) : Augmenter :=
  { a with scratch := { cells := #[] }, active := none }

-- Each other member counts for the bucket below its label.
def countMembers (pred : Array Int) (others : List Int) : Step Tally Unit :=
  others.forM fun m => do
    let label ← Step.lift (Hypergraph.lookup pred m)
    Tally.add (label - 1)

-- Without structure every edge counts once for bucket zero.
def tally (a : Augmenter) (g : Hypergraph) (pred : Array Int) (n e : Int) : Step Tally Unit := do
  modify Tally.clear
  if a.useStructure then
    let others ← Step.lift (g.others n e)
    countMembers pred others
  else Tally.add 0

-- A single occurrence leaves the value as it is.
def weigh (x : Float) (count : Nat) : Float :=
  if count = 1 then x else x * Float.ofNat count

def move (space : FeatureSpace) (f : Feature) (bucket : Int) (count : Nat) :
    Except Fault Feature := do
  let moved ← space.relocate f.bucket bucket
  return ⟨weigh f.value count, moved⟩

-- The copies an edge lends, given the tally of its other members.
def copies (space : FeatureSpace) (t : Tally) (visits : List Feature) :
    Except Fault (List Feature) :=
  if t.total = 0 then .ok []
  else if t.total = 1 then visits.mapM fun f => move space f t.last 1
  else List.flatten <$> visits.mapM fun f => t.occurring.mapM fun (bucket, count) =>
    move space f bucket count

def lend (a : Augmenter) (g : Hypergraph) (pred : Array Int) (n e : Int) :
    Step Tally (List Feature) := do
  a.tally g pred n e
  let t ← get
  let edge ← Step.lift (g.edge e)
  Step.lift (copies a.space t edge.visits)

-- The copies that all edges at a node lend it.
def gather (a : Augmenter) (g : Hypergraph) (pred : Array Int) (n : Int) :
    Step Tally (List Feature) := do
  let es ← Step.lift (g.incident n)
  let lent ← es.mapM fun e => a.lend g pred n e
  return lent.flatten

end Augmenter

namespace Record

def squaresOf (r : Record) (name : String) : Float :=
  (r.squares.get? name).getD 0.0

-- The record with more features in the neighbor namespace, which becomes active once more.
def receive (r : Record) (fs : List Feature) : Record :=
  let start := r.squaresOf neighborNamespace
  let sum := fs.foldl (fun sum f => sum + f.value * f.value) start
  { r with
    features := r.features.put neighborNamespace (r.featuresOf neighborNamespace ++ fs)
    active := r.active ++ [neighborNamespace]
    squares := r.squares.put neighborNamespace sum
    total := r.total + (sum - start)
    count := r.count + fs.length }

-- Counts the products of the features of two namespaces.
def cross (r : Record) (pair : String × String) : Record :=
  { r with
    count := r.count + (r.featuresOf pair.1).length * (r.featuresOf pair.2).length
    total := r.total + r.squaresOf pair.1 * r.squaresOf pair.2 }

def restore (r : Record) (t : Augmentation) : Record :=
  { r with
    active := t.active
    features := match t.features with
      | none => r.features.erase neighborNamespace
      | some fs => r.features.put neighborNamespace fs
    squares := match t.features, t.squares with
      | some _, some x => r.squares.put neighborNamespace x
      | _, _ => r.squares.erase neighborNamespace
    total := t.total
    count := t.count }

end Record

namespace FeatureSpace

def splitPair (pair : String) : Option (String × String) :=
  match pair.toList with
  | [a, b] => some (String.singleton a, String.singleton b)
  | _ => none

-- The namespace pairs that involve the neighbor namespace.
def neighborPairs (s : FeatureSpace) : List (String × String) :=
  (s.pairs.filterMap splitPair).filter fun p =>
    p.1 = neighborNamespace || p.2 = neighborNamespace

end FeatureSpace

-- A graph together with the augmenter that works on it.
structure Workbench where
  graph : Hypergraph
  augmenter : Augmenter

namespace Workbench

def setNode (w : Workbench) (n : Int) (r : Record) : Workbench :=
  match Index.place? w.graph.nodes.size n with
  | some place => { w with graph := { w.graph with nodes := w.graph.nodes.setIfInBounds place r } }
  | none => w

def setActive (w : Workbench) (active : Option Augmentation) : Workbench :=
  { w with augmenter := { w.augmenter with active } }

def tokenOf (w : Workbench) (n : Int) (r : Record) : Augmentation where
  serial := w.augmenter.issued
  node := n
  active := r.active
  features := r.features.get? neighborNamespace
  squares := r.squares.get? neighborNamespace
  total := r.total
  count := r.count

-- Takes an augmentation back. Only the active one can be.
def revert (t : Augmentation) : Step Workbench Unit := do
  let w ← get
  if w.augmenter.active.map (·.serial) = some t.serial then
    let r ← Step.lift (w.graph.node t.node)
    set ((w.setNode t.node (r.restore t)).setActive none)
  else throw (Fault.raised (.misuse (.notActive t.node)))

def begin (n : Int) : Step Workbench (Augmentation × Record) := do
  let w ← get
  if let some t := w.augmenter.active then throw (Fault.raised (.misuse (.stillActive t.node n)))
  let r ← Step.lift (w.graph.node n)
  let token := w.tokenOf n r
  set { w with augmenter := { w.augmenter with active := some token, issued := w.augmenter.issued + 1 } }
  return (token, r)

def gather (n : Int) (pred : Array Int) : Step Workbench (List Feature) := do
  let w ← get
  Step.within (fun w => w.augmenter.scratch)
    (fun t w => { w with augmenter := { w.augmenter with scratch := t } })
    (w.augmenter.gather w.graph pred n)

def inject (n : Int) (r : Record) (fs : List Feature) (token : Augmentation) :
    Step Workbench Augmentation := do
  let token := { token with added := fs.length }
  modify fun w =>
    (w.setNode n (w.augmenter.space.neighborPairs.foldl Record.cross (r.receive fs))).setActive
      (some token)
  return token

-- Lends a node the features of its neighborhood. If that fails, nothing is left of it.
def augment (n : Int) (pred : Array Int) : Step Workbench Augmentation := do
  let (token, r) ← begin n
  let fs ← Step.onFault (gather n pred) fun _ w => ((revert token).outcome w).2
  inject n r fs token

def release : Step Workbench Unit :=
  modify fun w => { w with augmenter := w.augmenter.release }

-- Replaces the active namespaces of a node.
def setActiveNamespaces (n : Int) (names : List String) : Step Workbench Unit := do
  let w ← get
  let r ← Step.lift (w.graph.node n)
  set (w.setNode n { r with active := names })

end Workbench
end CollectiveLabeling
