/-!
Lines of a text.

A line ends at a line feed, carriage return, vertical tab, form feed, one of the information
separators, next line, or the line and paragraph separators. A carriage return with a line feed
after it is one boundary. A boundary ends a line rather than separating two, so nothing follows the
last one.
-/

namespace CollectiveLabeling.Text

def isBoundary (c : Char) : Bool :=
  (0x0A ≤ c.toNat && c.toNat ≤ 0x0D) || (0x1C ≤ c.toNat && c.toNat ≤ 0x1E) || c.toNat = 0x85 ||
    c.toNat = 0x2028 || c.toNat = 0x2029

def extendFirst (c : Char) : List (List Char) → List (List Char)
  | [] => [[c]]
  | line :: lines => (c :: line) :: lines

def splitLines : List Char → List (List Char)
  | [] => []
  | '\r' :: '\n' :: rest => [] :: splitLines rest
  | c :: rest => if isBoundary c then [] :: splitLines rest else extendFirst c (splitLines rest)

def lines (s : String) : List String :=
  (splitLines s.toList).map String.ofList

end CollectiveLabeling.Text
