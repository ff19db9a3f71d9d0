import OrderKeeper.Binary64.Basic
import OrderKeeper.Text.Digits

/-!
# The text of a binary floating-point number

A number is written with the fewest significant digits that read back as the same word, and with the nearest such
digits (`shortest`). For one digit, two digits and so on, the two neighbours of the number on that decimal grid are
tried; the first grid with a neighbour inside the rounding interval wins.

Two layouts are used: `positional` has no exponent and no point in a whole number, `compact` has a point or an
exponent always and writes very large and very small numbers with an exponent.

Reading (`ofChars?`) takes digits with an optional point and an optional exponent, and the names of the infinities and
of NaN in any case, and gives the nearest word.
-/

namespace OrderKeeper.Binary64

open OrderKeeper.Text

/-- The digits `n` at the power of ten `exponent`. -/
structure Significant where
  digits : Nat
  exponent : Int
deriving DecidableEq

/-- The position `p` of the leading digit: `10 ^ (p - 1) ≤ n / d < 10 ^ p`. -/
def leading (n d : Nat) : Int :=
  if d ≤ n then (digits (n / d)).length
  else
    let c := (digits (d / n)).length
    if d ≤ n * 10 ^ (c - 1) then 2 - c else 1 - c

/-- Trailing zeros move from the digits to the exponent. -/
def Significant.strip (fuel : Nat) (s : Significant) : Significant :=
  match fuel with
  | 0 => s
  | fuel + 1 => if s.digits % 10 = 0 ∧ s.digits ≠ 0 then strip fuel ⟨s.digits / 10, s.exponent + 1⟩ else s

/-- The neighbour of `n / d` on the grid of `10 ^ g` that lies in the interval from `low / d` to `high / d`; of two
the nearer one. -/
def onGrid (n d low high : Nat) (closed : Bool) (g : Int) : Option Nat :=
  let up := 10 ^ (-g).toNat
  let d := d * 10 ^ g.toNat
  let below := n * up / d
  let inside := fun c : Nat =>
    if closed then low * up ≤ c * d ∧ c * d ≤ high * up else low * up < c * d ∧ c * d < high * up
  let lowIn := inside below
  let highIn := inside (below + 1)
  let upward := 2 * (n * up % d) > d ∨ (2 * (n * up % d) = d ∧ below % 2 = 1)
  if lowIn ∧ highIn then some (if upward then below + 1 else below)
  else if lowIn then some below
  else if highIn then some (below + 1)
  else none

/-- The first grid from `k` significant digits on with a neighbour that reads back. -/
def search (n d low high : Nat) (closed : Bool) (p : Int) : (fuel : Nat) → (k : Nat) → Significant
  | 0, k => ⟨n * 10 ^ (-(p - k)).toNat / (d * 10 ^ (p - k).toNat), p - k⟩
  | fuel + 1, k =>
    match onGrid n d low high closed (p - k) with
    | some c => ⟨c, p - k⟩
    | none => search n d low high closed p fuel (k + 1)

/-- The fewest significant digits that read back as a finite number, the nearest of those. -/
def shortest (x : Binary64) : Significant :=
  let m := x.significand
  if m = 0 then ⟨0, 0⟩
  else
    let up := 2 ^ x.power.toNat
    let d := 4 * 2 ^ (-x.power).toNat
    let gap := if x.fraction = 0 ∧ 1 < x.field then 1 else 2
    let n := 4 * m * up
    (search n d ((4 * m - gap) * up) ((4 * m + 2) * up) (m % 2 = 0) (leading n d) 17 1).strip 20

/-- Digits and a power of ten without an exponent: zeros up to the point, and a point only before a fraction. -/
def positionalChars (s : Significant) : List Char :=
  let ds := digits s.digits
  if 0 ≤ s.exponent then ds ++ List.replicate s.exponent.toNat '0'
  else
    let ds := padded ((-s.exponent).toNat + 1) s.digits
    let split := ds.length - (-s.exponent).toNat
    ds.take split ++ '.' :: ds.drop split

/-- A text without an exponent. -/
def positional (x : Binary64) : String :=
  let sign := if x.isNegative then ['-'] else []
  if x.isNaN then "NaN"
  else if x.isFinite then String.ofList (sign ++ positionalChars x.shortest)
  else String.ofList (sign ++ "inf".toList)

/-- The characters of a finite number in the layout that tells it from an integer: a point, or an exponent below
`10 ^ -5` and from `10 ^ 16` on. -/
def compactChars (x : Binary64) : List Char :=
  let s := x.shortest
  let ds := digits s.digits
  let p := ds.length + s.exponent
  (if x.isNegative then ['-'] else []) ++
    (if s.digits = 0 then "0.0".toList
     else if 0 ≤ s.exponent ∧ p ≤ 16 then positionalChars s ++ ".0".toList
     else if s.exponent < 0 ∧ -5 < p ∧ p ≤ 16 then positionalChars s
     else
      let power := (Text.ofInt (p - 1)).toList
      match ds with
      | [c] => c :: 'e' :: power
      | c :: rest => c :: '.' :: rest ++ 'e' :: power
      | [] => [])

/-- The text of a finite number that is told from an integer. -/
def compact (x : Binary64) : String := String.ofList x.compactChars

/-! ## Reading -/

/-- The word nearest to the digits `ds` times a power of ten. A number of more than 400 places before or after the
point is beyond every finite word, or below half the least one. -/
def ofDigits (negative : Bool) (ds : List Char) (exponent : Int) : Binary64 :=
  let n := numeral ds
  let places := (digits n).length + exponent
  if n = 0 ∨ places < -400 then zero negative
  else if 400 < places then infinity negative
  else ofScientific negative n exponent

/-- The power of ten after its mark; the empty text stands for zero. -/
def exponent? : List Char → Option Int
  | [] => some 0
  | mark :: cs =>
    let (negative, ds) := match cs with
      | '-' :: rest => (true, rest)
      | '+' :: rest => (false, rest)
      | rest => (false, rest)
    if mark.toLower = 'e' then (nat? ds).map fun n => if negative then -(n : Int) else n else none

/-- A number without a sign: a name, or digits with an optional point and exponent. -/
def ofMagnitude? (negative : Bool) (cs : List Char) : Option Binary64 := do
  let name := String.ofList (cs.map Char.toLower)
  if name = "inf" ∨ name = "infinity" then return infinity negative
  if name = "nan" then return ⟨UInt64.ofNat (2047 * 2 ^ 52 + 2 ^ 51)⟩
  let whole := cs.takeWhile isDigit
  let (fraction, rest) := match cs.dropWhile isDigit with
    | '.' :: after => (after.takeWhile isDigit, after.dropWhile isDigit)
    | after => ([], after)
  if whole.isEmpty ∧ fraction.isEmpty then none
  else return ofDigits negative (whole ++ fraction) ((← exponent? rest) - fraction.length)

/-- The number that characters denote. -/
def ofChars? : List Char → Option Binary64
  | '-' :: rest => ofMagnitude? true rest
  | '+' :: rest => ofMagnitude? false rest
  | cs => ofMagnitude? false cs

end OrderKeeper.Binary64
