/-!
The maximal cliques of a simple graph, given by the neighbors of each vertex and by its vertices.

The search extends a clique by candidates that neighbor all of it, in place of which no excluded
vertex may neighbor all of it in the end. Candidates that neighbor a chosen pivot need not be tried:
a maximal clique that holds none of the others holds the pivot.
-/

namespace CollectiveLabeling.Cliques

-- A search for cliques.
abbrev Finder := (Nat → List Nat) → List Nat → List (List Nat)

variable (near : Nat → List Nat)

def commonSize (candidates : List Nat) (v : Nat) : Nat :=
  (candidates.filter (near v).contains).length

-- The vertex that spares the most candidates.
def pivot (candidates excluded : List Nat) : Option Nat :=
  (candidates ++ excluded).foldl (fun best v => match best with
    | none => some v
    | some u => if commonSize near candidates u < commonSize near candidates v then some v else some u)
    none

def branches (candidates excluded : List Nat) : List Nat :=
  match pivot near candidates excluded with
  | none => []
  | some u => candidates.filter fun v => !(near u).contains v

-- The maximal cliques that extend `clique` by candidates; the depth bounds how many are added.
def extend : Nat → List Nat → List Nat → List Nat → List (List Nat)
  | 0, _, _, _ => []
  | depth + 1, clique, candidates, excluded =>
    if candidates.isEmpty && excluded.isEmpty then [clique]
    else
      let step := fun (found, candidates, excluded) v =>
        (found ++ extend depth (v :: clique) (candidates.filter (near v).contains)
            (excluded.filter (near v).contains),
          candidates.erase v, v :: excluded)
      ((branches near candidates excluded).foldl step ([], candidates, excluded)).1

def maximal (vertices : List Nat) : List (List Nat) :=
  if vertices.isEmpty then [] else extend near (vertices.length + 1) [] vertices []

end CollectiveLabeling.Cliques
