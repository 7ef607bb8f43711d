import CollectiveLabeling.Hypergraph

/-!
The graph in which the members of each edge are joined pairwise, and its connected parts.

The parts are found by merging: every vertex starts as a part of its own, and each pair joins the
parts of its ends.
-/

namespace CollectiveLabeling

def pairsOf {α : Type} : List α → List (α × α)
  | [] => []
  | x :: rest => rest.map (x, ·) ++ pairsOf rest

def orderPair (p : Int × Int) : Int × Int :=
  if p.1 ≤ p.2 then p else (p.2, p.1)

def precedes (p q : Int × Int) : Bool :=
  p.1 < q.1 || (p.1 = q.1 && p.2 ≤ q.2)

-- Each item once, where it first stands.
def distinct {α : Type} [BEq α] : List α → List α
  | [] => []
  | x :: rest => x :: (distinct rest).filter (· != x)

namespace Hypergraph

-- The pairs joined by some edge, the lesser number first.
def joinedPairs (g : Hypergraph) : List (Int × Int) :=
  g.edges.toList.flatMap fun e => ((pairsOf e.members).filter fun p => p.1 ≠ p.2).map orderPair

def cliqueEdges (g : Hypergraph) : List (Int × Int) :=
  (distinct g.joinedPairs).mergeSort precedes

-- A pair may name a vertex that is no node; it counts as one of its own.
def cliqueVertices (g : Hypergraph) : List Int :=
  (distinct ((List.range g.nodes.size).map Int.ofNat ++
    g.joinedPairs.flatMap fun p => [p.1, p.2])).mergeSort (· ≤ ·)

def merge (parts : List (List Int)) (p : Int × Int) : List (List Int) :=
  let (touched, rest) := parts.partition fun part => part.contains p.1 || part.contains p.2
  touched.flatten :: rest

def parts (g : Hypergraph) : List (List Int) :=
  g.joinedPairs.foldl merge (g.cliqueVertices.map ([·]))

def componentCount (g : Hypergraph) : Nat :=
  if g.nodes.isEmpty then 0 else g.parts.length

end Hypergraph
end CollectiveLabeling
