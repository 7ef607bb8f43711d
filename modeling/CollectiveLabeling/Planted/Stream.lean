import CollectiveLabeling.Planted

/-!
Chance from a stream of words.

A seed fixes the stream. The state moves by one odd step through all words, and what is handed out is
the state with its bits mixed, so that successive words have nothing in common.
-/

namespace CollectiveLabeling.Planted

structure Stream where
  state : UInt64 := 0

namespace Stream

def stride : UInt64 := 0x9E3779B97F4A7C15

def mix (x : UInt64) : UInt64 :=
  let x := (x ^^^ (x >>> 30)) * 0xBF58476D1CE4E5B9
  let x := (x ^^^ (x >>> 27)) * 0x94D049BB133111EB
  x ^^^ (x >>> 31)

def word : Step Stream UInt64 := do
  let state := (← get).state + stride
  set (Stream.mk state)
  return mix state

-- The leading fifty-three bits, as a part of one.
def real : Step Stream Float := do
  return (Float.ofNat ((← word) >>> 11).toNat) / Float.ofNat (Nat.pow 2 53)

def below (n : Nat) : Step Stream Nat := do
  return (← word).toNat % n

def between (low high : Int) : Step Stream Int := do
  return low + (← below (high - low).toNat)

-- Takes so many items out, one after the other.
def deal {α : Type} : Nat → List α → Step Stream (List α)
  | 0, _ => return []
  | count + 1, items => do
    let i ← below items.length
    let later ← deal count (items.eraseIdx i)
    return (items[i]?).toList ++ later

def permutation (n : Nat) : Step Stream (List Nat) :=
  deal n (List.range n)

-- Whether two nodes are joined, given the group and the number of each.
def joins (pIn pOut : Float) (pair : (Nat × Nat) × (Nat × Nat)) : Step Stream Bool := do
  return (← real) < if pair.1.1 = pair.2.1 then pIn else pOut

def partitionGraph (sizes : List Nat) (pIn pOut : Float) : Step Stream Drawing := do
  if !(isProbability pIn && isProbability pOut) then throw .improbable
  let groups := consecutive 0 sizes
  let nodes := groups.zipIdx.flatMap fun (group, g) => group.map (g, ·)
  let pairs ← (pairsOf nodes).filterM (joins pIn pOut)
  return {
    nodes := nodes.map Prod.snd
    edges := pairs.map fun ((_, u), (_, v)) => (u, v)
    groups }

instance : Chance Stream where
  seeded seed := set (Stream.mk (UInt64.ofInt seed))
  partitionGraph sizes pIn pOut _ := partitionGraph sizes pIn pOut
  permutation := permutation
  real := real
  between := between

-- An episode as the stream of its seed has it.
def episode (space : FeatureSpace) (request : Request) : Except Fault (List Record) :=
  ((Planted.episode Cliques.maximal space request).outcome ({} : Stream)).1

end Stream
end CollectiveLabeling.Planted
