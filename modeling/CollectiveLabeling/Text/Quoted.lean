import CollectiveLabeling.Text.Printable

/-!
Quotation of a text inside a message.

A quotation stands in single quotes, or in double quotes when the text holds a single quote and no
double quote. Inside it the backslash and the enclosing quote are escaped, and what cannot be shown
is written as a code.
-/

namespace CollectiveLabeling.Text

def hexDigit (n : Nat) : Char :=
  if n < 10 then Char.ofNat ('0'.toNat + n) else Char.ofNat ('a'.toNat + (n - 10))

-- Exactly `width` hexadecimal digits, the leading ones cut off if there are more.
def hex : Nat → Nat → List Char
  | 0, _ => []
  | width + 1, n => hex width (n / 16) ++ [hexDigit (n % 16)]

def code (c : Char) : List Char :=
  if c.toNat < 0x100 then '\\' :: 'x' :: hex 2 c.toNat
  else if c.toNat < 0x10000 then '\\' :: 'u' :: hex 4 c.toNat
  else '\\' :: 'U' :: hex 8 c.toNat

def escape (enclosing c : Char) : List Char :=
  if c = '\\' || c = enclosing then ['\\', c]
  else if c = '\n' then ['\\', 'n']
  else if c = '\r' then ['\\', 'r']
  else if c = '\t' then ['\\', 't']
  else if isPrintable c then [c]
  else code c

def enclosing (s : List Char) : Char :=
  if s.contains '\'' && !s.contains '"' then '"' else '\''

def quoteChars (s : List Char) : List Char :=
  let q := enclosing s
  q :: s.flatMap (escape q) ++ [q]

def quote (s : String) : String :=
  String.ofList (quoteChars s.toList)

end CollectiveLabeling.Text
