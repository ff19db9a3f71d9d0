import OrderKeeper.Binary64.Text
import OrderKeeper.Json.Fields
import OrderKeeper.Text.Case

/-!
# Converting the values of settings

Where settings are written by hand, a value of one kind stands for one of another: a text may spell a truth value or a
number, a truth value counts as one or zero, and a number may stand for a text. `converting` reads single values this
way. The spellings of truth values and all names are taken in any case.
-/

namespace OrderKeeper.Settings

open OrderKeeper.Text

/-- The truth value that a word spells. -/
def truth? (s : String) : Option Bool :=
  let word := fold s
  if word ∈ ["true", "on", "yes"] then some true
  else if word ∈ ["false", "off", "no"] then some false
  else none

/-- The natural number below `2 ^ 64` of a text of digits, before which a plus sign may stand. -/
def natOfText? (s : String) : Option Nat := do
  let ds := match s.toList with
    | '+' :: rest => rest
    | cs => cs
  let n ← nat? ds
  if n < 2 ^ 64 then some n else none

/-- A value as a text. -/
def convertText : Json → Option String
  | .text s => some s
  | .bool b => some (if b then "true" else "false")
  | .int n => some (Text.ofInt n)
  | .real x => some x.positional
  | _ => none

/-- A value as a truth value: a number is true unless it is zero. -/
def convertBool : Json → Option Bool
  | .bool b => some b
  | .int n => some (n ≠ 0)
  | .real x => some (x.isNaN || x.significand ≠ 0)
  | .text "1" => some true
  | .text "0" => some false
  | .text s => truth? s
  | _ => none

/-- A value as a natural number: a floating-point number is rounded. -/
def convertNat : Json → Option Nat
  | .int n => if 0 ≤ n then some n.toNat else none
  | .bool b => some b.toNat
  | .real x => some x.nearestWhole
  | .text s => ((truth? s).map Bool.toNat).or (natOfText? s)
  | _ => none

/-- A value as a floating-point number. -/
def convertReal : Json → Option Binary64
  | .real x => some x
  | .int n => some (.ofInt n)
  | .bool b => some (.ofWhole b.toNat)
  | .text s => ((truth? s).map fun b => Binary64.ofWhole b.toNat).or (Binary64.ofChars? s.toList)
  | _ => none

/-- One of a list of names, given by its text or as the name of a lone member. -/
def convertName (names : List String) (v : Json) : Option String := do
  let given ← match v with
    | .text s => some s
    | .object [(s, _)] => some s
    | _ => none
  names.find? fun name => fold name = fold given

/-- Values read with conversion. -/
def converting : Json.Scalars where
  text := convertText
  bool := convertBool
  natBelow bound v := (convertNat v).bind fun n => if n < bound then some n else none
  real := convertReal
  decimal := Json.asDecimal?
  name := convertName
  openLists := true

end OrderKeeper.Settings
