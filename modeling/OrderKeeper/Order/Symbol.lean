import OrderKeeper.Text.Case

/-!
# Trading pairs

A pair has a base and a quote asset, written in upper case when the pair is made (`Symbol.make`), and perhaps a name
of its own at the exchange.
-/

namespace OrderKeeper

/-- A trading pair. -/
structure Symbol where
  base : String
  quote : String
  exchangeName : Option String := none
deriving DecidableEq, Inhabited

namespace Symbol

/-- The pair of two assets, in upper case. -/
def make (base quote : String) : Symbol := { base := Text.upper base, quote := Text.upper quote }

/-- The parts of a text before and after the first separator. -/
def splitAt? (separator : Char) (cs : List Char) : Option (List Char × List Char) :=
  match cs.dropWhile (· ≠ separator) with
  | [] => none
  | _ :: rest => some (cs.takeWhile (· ≠ separator), rest)

/-- A pair from a text with a slash, or else a dash, between two assets that are not empty. -/
def ofText? (s : String) : Option Symbol := do
  let (base, quote) ← (splitAt? '/' s.toList).or (splitAt? '-' s.toList)
  if base.isEmpty ∨ quote.isEmpty then none
  else some (make (String.ofList base) (String.ofList quote))

/-- The text of a pair. -/
def toText (s : Symbol) : String := s.base ++ "/" ++ s.quote

/-- The name that the exchange knows the pair by: its own, or the assets without a separator. -/
def code (s : Symbol) : String := s.exchangeName.getD (s.base ++ s.quote)

end Symbol

end OrderKeeper
