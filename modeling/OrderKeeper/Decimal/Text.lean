import OrderKeeper.Decimal.Basic
import OrderKeeper.Text.Digits

/-!
# The text of a decimal

A decimal is written with exactly as many fractional digits as its scale (`toText`). Reading is wider than writing:

* one sign may stand in front, underscores are allowed after the first digit, and a point may end or begin the
  digits (`scan?`);
* digits beyond the room of a decimal are an error before the point; after it the first one too many rounds the
  number, a five upward, and the rest must only be digits;
* failing that, a base and a power of ten between -28 and 28 are tried (`scientific?`).
-/

namespace OrderKeeper.Decimal

open OrderKeeper.Text

/-- The characters of a decimal: sign, integer part, and the fraction after a point when the scale is not zero. -/
def toChars (a : Decimal) : List Char :=
  let ds := padded (a.scale + 1) a.coefficient.natAbs
  let whole := ds.take (ds.length - a.scale)
  let fraction := ds.drop (ds.length - a.scale)
  (if a.coefficient < 0 then ['-'] else []) ++ whole ++ (if a.scale = 0 then [] else '.' :: fraction)

/-- The text of a decimal, with its scale. -/
def toText (a : Decimal) : String := String.ofList a.toChars

/-! ## Reading -/

/-- What has been read of a number: the digits so far, how many of them are fractional, and whether a point and a
digit have been seen. -/
structure Partial where
  mantissa : Nat
  scale : Nat
  point : Bool
  digit : Bool

namespace Partial

/-- Nothing read yet. -/
def start : Partial := ⟨0, 0, false, false⟩

/-- Whether one more digit has room. -/
def hasRoom (p : Partial) (d : Nat) : Bool := p.scale < 28 && 10 * p.mantissa + d < 2 ^ 96

/-- The number after one more digit that has room. -/
def push (p : Partial) (d : Nat) : Partial :=
  { p with mantissa := 10 * p.mantissa + d, scale := if p.point then p.scale + 1 else p.scale, digit := true }

/-- The number rounded by the first digit that has no room. A carry out of the coefficient costs one place. -/
def rounded? (p : Partial) (d : Nat) : Option (Nat × Nat) :=
  if d < 5 then some (p.mantissa, p.scale)
  else if p.mantissa + 1 < 2 ^ 96 then some (p.mantissa + 1, p.scale)
  else if p.scale = 0 then none
  else some ((p.mantissa + 5) / 10, p.scale - 1)

end Partial

/-- The magnitude and scale of an unsigned number. -/
def scan? : List Char → Partial → Option (Nat × Nat)
  | [], p => if p.digit then some (p.mantissa, p.scale) else none
  | c :: rest, p =>
    if isDigit c then
      if p.hasRoom (digitValue c) then scan? rest (p.push (digitValue c))
      else if p.point && rest.all (fun c => isDigit c || c = '_') then p.rounded? (digitValue c)
      else none
    else if c = '.' ∧ ¬ p.point then scan? rest { p with point := true }
    else if c = '_' ∧ p.digit then scan? rest p
    else none

/-- The decimal of a sign, a magnitude and a scale, when there is room. -/
def ofParts? (negative : Bool) (magnitude scale : Nat) : Option Decimal :=
  if h : magnitude < 2 ^ 96 ∧ scale ≤ 28 then
    some ⟨if negative then -(magnitude : Int) else magnitude, scale, by split <;> simp <;> omega, h.2⟩
  else none

/-- A sign in front, if there is one, and the rest. -/
def splitSign : List Char → Bool × List Char
  | '-' :: rest => (true, rest)
  | '+' :: rest => (false, rest)
  | cs => (false, cs)

/-- Positional notation. -/
def positional? (cs : List Char) : Option Decimal :=
  let (negative, rest) := splitSign cs
  (scan? rest .start).bind fun (m, s) => ofParts? negative m s

/-- The same coefficient moved by a power of ten: to the right below zero, else to the left, first over the scale and
then over the coefficient. -/
def shift? (a : Decimal) (exponent : Int) : Option Decimal :=
  if exponent < 0 then ofParts? (a.coefficient < 0) a.coefficient.natAbs (a.scale + exponent.natAbs)
  else
    let e := exponent.natAbs
    if e ≤ a.scale then ofParts? (a.coefficient < 0) a.coefficient.natAbs (a.scale - e)
    else ofParts? (a.coefficient < 0) (a.coefficient.natAbs * 10 ^ (e - a.scale)) 0

/-- The power of ten of a scientific notation: an integer of magnitude at most 28. A sign of its own may follow the
minus or plus. -/
def exponent? (cs : List Char) : Option Int :=
  let (negative, rest) := splitSign cs
  let rest := match rest with
    | '+' :: ds => ds
    | ds => ds
  (nat? rest).bind fun e => if e ≤ 28 then some (if negative then -(e : Int) else e) else none

/-- Scientific notation: a positional base, `e` or `E`, and a power of ten. -/
def scientific? (cs : List Char) : Option Decimal :=
  let isMark := fun c : Char => c = 'e' || c = 'E'
  match cs.dropWhile (fun c => !isMark c) with
  | [] => none
  | _ :: power => do
    let base ← positional? (cs.takeWhile (fun c => !isMark c))
    shift? base (← exponent? power)

/-- The decimal that a text denotes. -/
def ofText? (s : String) : Option Decimal :=
  match positional? s.toList with
  | some a => some a
  | none => scientific? s.toList

end OrderKeeper.Decimal
