import CollectiveLabeling.Hypergraph
import CollectiveLabeling.Prior

/-!
From the records of an episode to its hypergraph.

An episode lists its nodes before its edges. A node's label lies between zero and the bound, if there
is one; an edge names its members by their position among the nodes, counted from one.
-/

namespace CollectiveLabeling.Episode

-- The records parted into nodes and edges.
structure Sorted where
  nodes : Array Record := #[]
  edges : Array Record := #[]

def labelAllowed (bound : Option Int) (label : Int) : Bool :=
  0 ≤ label && bound.all (label ≤ ·)

def sortRecord (bound : Option Int) (s : Sorted) (r : Record) : Except Defect Sorted :=
  if r.isEdge then .ok { s with edges := s.edges.push r }
  else if !s.edges.isEmpty then .error .nodeAfterEdge
  else if labelAllowed bound r.label then .ok { s with nodes := s.nodes.push r }
  else .error (.labelOutside r.label bound s.nodes.size)

def sort (bound : Option Int) (records : List Record) : Except Defect Sorted :=
  records.foldlM (sortRecord bound) {}

def checkId (nodes : Nat) (id : Int) : Except Defect Unit :=
  if (nodes : Int) < id then .error (.nodeIdTooLarge id nodes)
  else if id < 1 then .error (.nodeIdNotPositive id)
  else .ok ()

def checkIds (s : Sorted) : Except Defect Unit :=
  if s.nodes.isEmpty && !s.edges.isEmpty then .error .edgesWithoutNodes
  else s.edges.toList.forM fun e => e.costs.forM fun (id, _) => checkId s.nodes.size id

-- An edge that names a node twice is listed at it once: its entries there follow one another, so
-- comparing with the last one is enough.
def link (e : Nat) (adjacency : Array (List Int)) (n : Int) : Array (List Int) :=
  adjacency.modify n.toNat fun es => if es.getLast? = some (e : Int) then es else es ++ [(e : Int)]

def adjacency (s : Sorted) : Array (List Int) :=
  s.edges.toList.zipIdx.foldl (fun adjacency (r, e) => r.members.foldl (link e) adjacency)
    (Array.replicate s.nodes.size [])

def graphOf (s : Sorted) : Hypergraph where
  nodes := s.nodes
  edges := s.edges
  adjacency := adjacency s

def toGraph (bound : Option Int) (records : List Record) : Except Defect Hypergraph := do
  let s ← sort bound records
  checkIds s
  return graphOf s

-- The label bound in force: the one asked for, else the prior's.
def boundOf (bound : Option Int) (prior : Option Prior) : Option Int :=
  bound <|> prior.map Prior.labels

def observeNodes (nodes : List Record) : Step Prior Unit :=
  (nodes.filter (!·.isUnlabeled)).forM fun r => Prior.observe r.label

-- A refused episode never reaches the prior.
def load (bound : Option Int) (records : List Record) : Step (Option Prior) Hypergraph := do
  let prior ← get
  match toGraph (boundOf bound prior) records with
  | .error d => throw (Fault.raised (.defect d))
  | .ok g =>
    match prior with
    | none => return g
    | some p =>
      Step.within (fun _ => p) (fun p _ => some p) (observeNodes g.nodes.toList)
      return g

end CollectiveLabeling.Episode
