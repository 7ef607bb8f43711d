/-!
Positions counted from either end.

In a row of `size` places the positions `0 .. size - 1` count from the front and `-size .. -1` from
the back; the last place is `-1`.
-/

namespace CollectiveLabeling.Index

def place? (size : Nat) (i : Int) : Option Nat :=
  if 0 ≤ i then
    if i < size then some i.toNat else none
  else if 0 ≤ size + i then some (size + i).toNat
  else none

theorem lt_of_place? {size : Nat} {i : Int} {p : Nat} (h : place? size i = some p) : p < size := by
  unfold place? at h
  grind

theorem place?_natCast {size n : Nat} (h : n < size) : place? size n = some n := by
  simp only [place?]
  grind

theorem place?_eq_none_iff {size : Nat} {i : Int} :
    place? size i = none ↔ i < -size ∨ size ≤ i := by
  simp only [place?]
  grind

def fin? (size : Nat) (i : Int) : Option (Fin size) :=
  match h : place? size i with
  | some p => some ⟨p, lt_of_place? h⟩
  | none => none

theorem fin?_natCast {size n : Nat} (h : n < size) : fin? size n = some ⟨n, h⟩ := by
  have place := place?_natCast h
  simp only [fin?]
  split <;> simp_all

theorem map_fin? (size : Nat) (i : Int) : (fin? size i).map Fin.val = place? size i := by
  simp only [fin?]
  split <;> simp_all

theorem fin?_eq_none_iff {size : Nat} {i : Int} : fin? size i = none ↔ i < -size ∨ size ≤ i := by
  rw [← Option.map_eq_none_iff (f := Fin.val), map_fin?, place?_eq_none_iff]

end CollectiveLabeling.Index
