import CollectiveLabeling.Index
import CollectiveLabeling.Record

/-!
Hypergraphs of records.

Nodes and edges are numbered in the order of the records. An edge names its members by node number
and may have more than two; `adjacency` lists for each node the edges at it. Numbers may be counted
from either end, and a graph put together by hand may hold numbers that lead nowhere.
-/

namespace CollectiveLabeling

structure Hypergraph where
  nodes : Array Record
  edges : Array Record
  adjacency : Array (List Int)

namespace Hypergraph

def lookup {α : Type} (xs : Array α) (i : Int) : Except Fault α :=
  match (Index.place? xs.size i).bind (xs[·]?) with
  | some x => .ok x
  | none => .error .outOfRange

def node (g : Hypergraph) (n : Int) : Except Fault Record :=
  lookup g.nodes n

def edge (g : Hypergraph) (e : Int) : Except Fault Record :=
  lookup g.edges e

def members (g : Hypergraph) (e : Int) : Except Fault (List Int) :=
  Record.members <$> g.edge e

def incident (g : Hypergraph) (n : Int) : Except Fault (List Int) :=
  lookup g.adjacency n

-- The other members of an edge.
def others (g : Hypergraph) (n e : Int) : Except Fault (List Int) :=
  List.filter (· ≠ n) <$> g.members e

-- Each edge at a node with each of its other members, repeats kept.
def neighbors (g : Hypergraph) (n : Int) : Except Fault (List (Int × Int)) := do
  let es ← g.incident n
  let near ← es.mapM fun e => List.map (e, ·) <$> g.others n e
  return near.flatten

-- The records of the episode, nodes first.
def records (g : Hypergraph) : List Record :=
  g.nodes.toList ++ g.edges.toList

end Hypergraph
end CollectiveLabeling
