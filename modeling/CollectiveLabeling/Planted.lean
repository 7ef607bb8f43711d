import CollectiveLabeling.Cliques
import CollectiveLabeling.Hypergraph.Clique
import CollectiveLabeling.Step

/-!
Synthetic episodes with planted groups.

The nodes fall into groups of nearly equal size, one for each label, and are joined more likely within
a group than across. A node shows its label as a feature, or with some probability a random label in
its place, besides a feature that all nodes share. The nodes are renumbered at random, so that a
node's number tells nothing about its label.
-/

namespace CollectiveLabeling.Planted

-- An episode as it is asked for.
structure Request where
  nodes : Int
  labels : Int
  pIn : Float := 0.3
  pOut : Float := 0.02
  noise : Float := 0.3
  hyperedges : Bool := false
  seed : Int := 1337

-- A graph as it is drawn, with its nodes in the order they are listed in, and the groups they fall into.
structure Drawing where
  nodes : List Nat
  edges : List (Nat × Nat)
  groups : List (List Nat)

-- A source of chance.
class Chance (σ : Type) where
  seeded : Int → Step σ Unit
  -- A random graph whose nodes fall into groups of the given sizes.
  partitionGraph : List Nat → Float → Float → Int → Step σ Drawing
  permutation : Nat → Step σ (List Nat)
  real : Step σ Float
  -- At least the first number and less than the second.
  between : Int → Int → Step σ Int

def isProbability (p : Float) : Bool :=
  0.0 ≤ p && p ≤ 1.0

-- The sizes of the groups; what is left over goes to the first ones.
def groupSizes (nodes labels : Nat) : List Nat :=
  (List.range labels).map fun g => nodes / labels + if g < nodes % labels then 1 else 0

-- Groups of these sizes that hold the nodes one after the other.
def consecutive : Nat → List Nat → List (List Nat)
  | _, [] => []
  | start, size :: sizes => List.range' start size :: consecutive (start + size) sizes

def renumbered (perm : List Nat) (u : Nat) : Nat :=
  perm.getD u u

-- The nodes after renumbering, each with the label of its group.
def labeledNodes (perm : List Nat) (groups : List (List Nat)) : List (Nat × Nat) :=
  groups.zipIdx.flatMap fun (group, g) => group.map fun u => (renumbered perm u, g + 1)

-- The label of each node after renumbering.
def renumberedLabels (count : Nat) (perm : List Nat) (groups : List (List Nat)) : Array Nat :=
  (labeledNodes perm groups).foldl (fun labels (n, label) => labels.setIfInBounds n label)
    (Array.replicate count 0)

-- The edge from the end that is listed first.
def Drawing.oriented (d : Drawing) (e : Nat × Nat) : Nat × Nat :=
  if d.nodes.idxOf e.1 ≤ d.nodes.idxOf e.2 then e else (e.2, e.1)

def pairPrecedes (p q : Nat × Nat) : Bool :=
  p.1 < q.1 || (p.1 = q.1 && p.2 ≤ q.2)

-- The edges after renumbering, each from the end that was listed first.
def renumberedEdges (perm : List Nat) (d : Drawing) : List (Nat × Nat) :=
  ((distinct (d.edges.map d.oriented)).map fun (u, v) => (renumbered perm u, renumbered perm v)).mergeSort
    pairPrecedes

def neighborsIn (edges : List (Nat × Nat)) (n : Nat) : List Nat :=
  edges.filterMap fun (u, v) =>
    if u = n && v ≠ n then some v else if v = n && u ≠ n then some u else none

def listPrecedes (a b : List Nat) : Bool :=
  !(decide (b < a))

-- The cliques of three or more nodes that are found, sorted within and among themselves.
def largeCliques (find : Cliques.Finder) (nodes : Nat) (edges : List (Nat × Nat)) : List (List Nat) :=
  let found := find (neighborsIn edges) (List.range nodes)
  ((found.filter (3 ≤ ·.length)).map fun c => c.mergeSort (· ≤ ·)).mergeSort listPrecedes

def nodeNamespace : String := "n"
def edgeNamespace : String := "e"

def nodeSource (labels label observed : Int) : Record.Source where
  costs := [(.value label, .value 1.0)]
  features := [(nodeNamespace, [(.value observed, .value 1.0), (.value (labels + 1), .value 1.0)])]

def edgeSource (feature : Int) (members : List Nat) : Record.Source where
  costs := members.map fun (m : Nat) => (.value ((m : Int) + 1), .value 1.0)
  features := [(edgeNamespace, [(.value feature, .value 1.0)])]

-- The records of the edges: the pairs first, then the cliques, told apart by their feature.
def edgeSources (find : Cliques.Finder) (nodes : Nat) (edges : List (Nat × Nat)) (hyperedges : Bool) :
    List Record.Source :=
  edges.map (fun (u, v) => edgeSource 0 [u, v]) ++
    if hyperedges then (largeCliques find nodes edges).map (edgeSource 1) else []

variable {σ : Type} [Chance σ]

-- The label a node shows.
def observe (request : Request) (label : Nat) : Step σ Int := do
  if (← Chance.real) < request.noise then Chance.between 1 (request.labels + 1)
  else return label

def nodeRecord (space : FeatureSpace) (request : Request) (label : Nat) : Step σ Record := do
  let observed ← observe request label
  Step.lift (Record.ofSource space (nodeSource request.labels label observed))

def episode (find : Cliques.Finder) (space : FeatureSpace) (request : Request) :
    Step σ (List Record) := do
  if request.labels < 1 then throw (Fault.raised (.invalid (.labelCount request.labels)))
  if request.nodes < request.labels then
    throw (Fault.raised (.invalid (.tooFewNodes request.nodes request.labels)))
  Chance.seeded (σ := σ) request.seed
  let sizes := groupSizes request.nodes.toNat request.labels.toNat
  let drawn ← Chance.partitionGraph sizes request.pIn request.pOut request.seed
  let count := drawn.nodes.length
  let perm ← Chance.permutation count
  let labels := renumberedLabels count perm drawn.groups
  let nodes ← labels.toList.mapM (nodeRecord space request)
  let edges := renumberedEdges perm drawn
  let joined ← Step.lift
    ((edgeSources find count edges request.hyperedges).mapM (Record.ofSource space))
  return nodes ++ joined

end CollectiveLabeling.Planted
