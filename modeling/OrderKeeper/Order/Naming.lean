import OrderKeeper.Text.Utf8

/-!
# Order ids of our own

An order is named by a text of ours and 32 hexadecimal digits drawn by chance, cut to 36 bytes. There is no such name
when the cut would fall inside a character.
-/

namespace OrderKeeper.OrderId

/-- The most bytes of an id. -/
def maxBytes : Nat := 36

/-- The number of digits that are drawn. -/
def drawWidth : Nat := 32

/-- The first `n` bytes of a text, when they are characters. -/
def cut? : (n : Nat) → List Char → Option (List Char)
  | _, [] => some []
  | n, c :: rest =>
    if n = 0 then some []
    else if Text.Utf8.width c ≤ n then (cut? (n - Text.Utf8.width c) rest).map (c :: ·)
    else none

/-- The id that starts with a text of ours and goes on with drawn digits. -/
def make? (start draw : String) : Option String := (cut? maxBytes (start ++ draw).toList).map String.ofList

/-- The number of bytes of a text. -/
def bytes (s : String) : Nat := (Text.Utf8.encode s).length

end OrderKeeper.OrderId
