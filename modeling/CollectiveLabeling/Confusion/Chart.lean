import CollectiveLabeling.Confusion

/-!
The picture of a confusion matrix, as the commands that draw it.
-/

namespace CollectiveLabeling.Confusion

-- What a drawing command is given; `handle` stands for an object the drawing itself made.
inductive Operand where
  | text (s : String)
  | whole (n : Int)
  | list (xs : List Operand)
  | handle

structure Command where
  name : String
  operands : List Operand := []
  options : List (String × Operand) := []

namespace Chart

open Operand

-- The picture grows with the labels beyond four.
def extent (c : Confusion) : Operand :=
  whole (max 4 c.labels)

def matrix (c : Confusion) : Operand :=
  list (c.block.map fun row => list (row.map fun (n : Nat) => whole n))

def ticks (c : Confusion) : Operand :=
  list ((List.range (c.side - 1)).map fun (i : Nat) => whole i)

def tickLabels (c : Confusion) : Operand :=
  list (c.labelRange.map fun k => text (toString k))

def cellText (row column : Nat) (n : Nat) : Command where
  name := "text"
  operands := [whole column, whole row, whole n]
  options := [("color", text "w"), ("ha", text "center"), ("va", text "center")]

def cellTexts (c : Confusion) : List Command :=
  c.block.zipIdx.flatMap fun (row, i) => row.zipIdx.map fun (n, j) => cellText i j n

def titled (title : Option String) : List Command :=
  match title with
  | none | some "" => []
  | some t => [{ name := "set_title", operands := [text t] }]

def frame (c : Confusion) : List Command := [
  { name := "use", operands := [text "Agg"] },
  { name := "subplots", options := [("figsize", list [extent c, extent c])] },
  { name := "imshow", operands := [matrix c], options := [("cmap", text "viridis")] },
  { name := "set_xlabel", operands := [text "predicted"] },
  { name := "set_ylabel", operands := [text "true"] },
  { name := "set_xticks", operands := [ticks c] },
  { name := "set_xticklabels", operands := [tickLabels c] },
  { name := "set_yticks", operands := [ticks c] },
  { name := "set_yticklabels", operands := [tickLabels c] }]

def close (path : String) : List Command := [
  { name := "colorbar", operands := [handle], options := [("ax", handle)] },
  { name := "tight_layout" },
  { name := "savefig", operands := [text path],
    options := [("bbox_inches", text "tight"), ("dpi", whole 150)] },
  { name := "close", operands := [handle] }]

def commands (c : Confusion) (path : String) (title : Option String) : List Command :=
  frame c ++ cellTexts c ++ titled title ++ close path

end Chart
end CollectiveLabeling.Confusion
