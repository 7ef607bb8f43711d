import CollectiveLabeling.Planted

/-!
Chance that is laid out beforehand. Numbers are taken from lists, over and over, and everything that
is asked for is kept.
-/

namespace CollectiveLabeling.Planted

structure GraphCall where
  sizes : List Nat
  pIn : Float
  pOut : Float
  seed : Int

structure Dice where
  permutation : Option (List Nat) := none
  reals : List Float := []
  integers : List Int := []
  edges : Option (List (Nat × Nat)) := none
  seeds : Array Int := #[]
  realsTaken : Nat := 0
  ranges : Array (Int × Int) := #[]
  calls : Array GraphCall := #[]

namespace Dice

def cycled {α : Type} (xs : List α) (i : Nat) (fallback : α) : α :=
  xs.getD (i % xs.length) fallback

-- Fourfold until less than three fifths are taken.
def widen : Nat → Nat → Nat → Nat
  | 0, span, _ => span
  | times + 1, span, count =>
    if 3 * (span - 1) ≤ 5 * count then widen times (4 * span) count else span

-- The nodes of a group, each with the group's label, in the order of their remainders by a span that
-- is wide enough for so many.
def listing (group start size : Nat) : List (Nat × Nat) :=
  let span := widen size 8 size
  ((List.range size).map (start + ·)).mergeSort (fun u v => u % span ≤ v % span) |>.map (group, ·)

-- All nodes, group by group.
def listings : Nat → Nat → List Nat → List (Nat × Nat)
  | _, _, [] => []
  | group, start, size :: sizes => listing group start size ++ listings (group + 1) (start + size) sizes

-- All pairs within the groups if those are certain, and all across if those are.
def certain (sizes : List Nat) (pIn pOut : Float) : Drawing :=
  let nodes := listings 1 0 sizes
  { nodes := nodes.map Prod.snd
    edges := (pairsOf nodes).filterMap fun ((g, u), (h, v)) =>
      if (if g = h then pIn else pOut) == 1.0 then some (u, v) else none
    groups := consecutive 0 sizes }

def partitionGraph (sizes : List Nat) (pIn pOut : Float) (seed : Int) : Step Dice Drawing := do
  modify fun d => { d with calls := d.calls.push ⟨sizes, pIn, pOut, seed⟩ }
  match (← get).edges with
  | some edges => return { nodes := (consecutive 0 sizes).flatten, edges, groups := consecutive 0 sizes }
  | none =>
    if isProbability pIn && isProbability pOut then return certain sizes pIn pOut
    else throw .improbable

def real : Step Dice Float := do
  let d ← get
  set { d with realsTaken := d.realsTaken + 1 }
  return cycled d.reals d.realsTaken 0.0

def between (low high : Int) : Step Dice Int := do
  let d ← get
  set { d with ranges := d.ranges.push (low, high) }
  return low + cycled d.integers d.ranges.size 0 % (high - low)

instance : Chance Dice where
  seeded seed := modify fun d => { d with seeds := d.seeds.push seed }
  partitionGraph := partitionGraph
  permutation n := return (← get).permutation.getD (List.range n)
  real := real
  between := between

end Dice
end CollectiveLabeling.Planted
