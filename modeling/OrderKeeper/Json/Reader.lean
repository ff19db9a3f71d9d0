import OrderKeeper.Json.Value
import OrderKeeper.Text.Digits

/-!
# Reading JSON text

The reader accepts the JSON grammar and nothing else, with at most 127 levels of nesting. Members of an object are
kept as written, repetitions included.

A number without fraction and exponent that has room in 64 bits is an integer; `-0` is not. Any other number is taken
as a significand of at most 64 bits times a power of ten: digits beyond that width count only by their place. The
significand is rounded to binary first and then multiplied or divided by the rounded power (`scaled?`), so a long
number may miss the nearest word by one.
-/

namespace OrderKeeper.Json

open OrderKeeper.Text

/-- The text without blanks in front. -/
def skipBlank : List Char → List Char
  | ' ' :: rest => skipBlank rest
  | '\n' :: rest => skipBlank rest
  | '\t' :: rest => skipBlank rest
  | '\r' :: rest => skipBlank rest
  | cs => cs

/-! ## Numbers -/

/-- Digits taken into a significand of at most 64 bits, and the number of those that came after it was full. -/
def significand (cs : List Char) (start : Nat) : Nat × Nat :=
  let step := fun (acc : Nat × Nat) (c : Char) =>
    let next := 10 * acc.1 + digitValue c
    if acc.2 = 0 ∧ next < 2 ^ 64 then (next, 0) else (acc.1, acc.2 + 1)
  cs.foldl step (start, 0)

/-- A power of ten rounded to binary. -/
def tenTo (k : Nat) : Binary64 := Binary64.ofWhole (10 ^ k)

/-- The product of two finite numbers, rounded. -/
def times (x y : Binary64) : Binary64 :=
  Binary64.ofRatio false (x.ratio.1 * y.ratio.1) (x.ratio.2 * y.ratio.2)

/-- The quotient of two finite numbers, rounded. -/
def quotient (x y : Binary64) : Binary64 :=
  Binary64.ofRatio false (x.ratio.1 * y.ratio.2) (x.ratio.2 * y.ratio.1)

/-- `x / 10 ^ k` in steps of at most 308 places. -/
def dividedByTenTo (x : Binary64) (k : Nat) : Binary64 :=
  if k ≤ 308 then quotient x (tenTo k)
  else if x.significand = 0 then x
  else dividedByTenTo (quotient x (tenTo 308)) (k - 308)
termination_by k

/-- `digits · 10 ^ exponent` by way of the rounded significand; none when it is too large. -/
def scaled? (digits : Nat) (exponent : Int) : Option Binary64 :=
  let x := Binary64.ofWhole digits
  if exponent < 0 then some (dividedByTenTo x exponent.natAbs)
  else if digits = 0 then some x
  else if exponent ≤ 308 then
    let y := times x (tenTo exponent.toNat)
    if y.isFinite then some y else none
  else none

/-- A floating-point number with its sign. -/
def signed (negative : Bool) (x : Binary64) : Binary64 :=
  if negative then ⟨UInt64.ofNat (2 ^ 63 + x.bits.toNat)⟩ else x

/-- The exponent after its mark: an optional sign and digits. -/
def readExponent (cs : List Char) : Option (Int × List Char) :=
  let (negative, ds) := match cs with
    | '-' :: rest => (true, rest)
    | '+' :: rest => (false, rest)
    | rest => (false, rest)
  let power := ds.takeWhile isDigit
  if power.isEmpty then none
  else some (if negative then -(numeral power : Int) else numeral power, ds.dropWhile isDigit)

/-- A number that has a fraction or an exponent, or no room as an integer, from its significand on. -/
def finishReal (negative : Bool) (digits : Nat) (exponent : Int) (cs : List Char) : Option (Json × List Char) := do
  let (power, rest) ← match cs with
    | 'e' :: rest => readExponent rest
    | 'E' :: rest => readExponent rest
    | rest => some (0, rest)
  let x ← scaled? digits (exponent + power)
  return (real (signed negative x), rest)

/-- A number from its first digit on. -/
def readNumber (negative : Bool) (cs : List Char) : Option (Json × List Char) :=
  let whole := cs.takeWhile isDigit
  let rest := cs.dropWhile isDigit
  let (digits, skipped) := significand whole 0
  if whole.isEmpty ∨ (whole.head? = some '0' ∧ whole ≠ ['0']) then none
  else match rest with
    | '.' :: after =>
      let fraction := after.takeWhile isDigit
      let (digits, ignored) := significand fraction digits
      if fraction.isEmpty then none
      else finishReal negative digits (skipped - (fraction.length - ignored : Nat)) (after.dropWhile isDigit)
    | 'e' :: _ => finishReal negative digits skipped rest
    | 'E' :: _ => finishReal negative digits skipped rest
    | _ =>
      if 0 < skipped then finishReal negative digits skipped rest
      else if negative then
        if digits = 0 ∨ 2 ^ 63 < digits then finishReal true digits 0 rest else some (int (-digits), rest)
      else some (int digits, rest)

/-! ## Strings -/

/-- The value of a hexadecimal digit. -/
def hexValue? (c : Char) : Option Nat :=
  if '0' ≤ c ∧ c ≤ '9' then some (c.toNat - 48)
  else if 'a' ≤ c ∧ c ≤ 'f' then some (c.toNat - 87)
  else if 'A' ≤ c ∧ c ≤ 'F' then some (c.toNat - 55)
  else none

/-- Four hexadecimal digits. -/
def hex4? : List Char → Option (Nat × List Char)
  | a :: b :: c :: d :: rest => do
    return (((← hexValue? a) * 16 + (← hexValue? b)) * 256 + (← hexValue? c) * 16 + (← hexValue? d), rest)
  | _ => none

/-- The character of a `\u` escape, of two of them when the first is the upper half of a pair. -/
def unicodeEscape? (cs : List Char) : Option (Char × List Char) := do
  let (n, rest) ← hex4? cs
  if 0xD800 ≤ n ∧ n < 0xDC00 then
    match rest with
    | '\\' :: 'u' :: rest =>
      let (m, rest) ← hex4? rest
      if 0xDC00 ≤ m ∧ m < 0xE000 then
        return (Char.ofNat (0x10000 + (n - 0xD800) * 0x400 + (m - 0xDC00)), rest)
      else none
    | _ => none
  else if 0xDC00 ≤ n ∧ n < 0xE000 then none
  else return (Char.ofNat n, rest)

/-- The character of an escape after its backslash. -/
def escaped? : List Char → Option (Char × List Char)
  | '"' :: rest => some ('"', rest)
  | '\\' :: rest => some ('\\', rest)
  | '/' :: rest => some ('/', rest)
  | 'b' :: rest => some ('\x08', rest)
  | 'f' :: rest => some ('\x0c', rest)
  | 'n' :: rest => some ('\n', rest)
  | 'r' :: rest => some ('\r', rest)
  | 't' :: rest => some ('\t', rest)
  | 'u' :: rest => unicodeEscape? rest
  | _ => none

/-- The characters of a string after its opening quote, `fuel` at most. -/
def readString : (fuel : Nat) → List Char → Option (List Char × List Char)
  | _, '"' :: rest => some ([], rest)
  | 0, _ => none
  | _, [] => none
  | fuel + 1, '\\' :: rest => do
    let (c, rest) ← escaped? rest
    let (cs, rest) ← readString fuel rest
    return (c :: cs, rest)
  | fuel + 1, c :: rest =>
    if c.toNat < 32 then none
    else do
      let (cs, rest) ← readString fuel rest
      return (c :: cs, rest)

/-! ## Values -/

mutual

/-- A value with at most `depth` levels of nesting inside it, read in at most `fuel` steps. -/
def readValue : (fuel depth : Nat) → List Char → Option (Json × List Char)
  | 0, _, _ => none
  | fuel + 1, depth, cs =>
    match skipBlank cs with
    | 'n' :: 'u' :: 'l' :: 'l' :: rest => some (null, rest)
    | 't' :: 'r' :: 'u' :: 'e' :: rest => some (bool true, rest)
    | 'f' :: 'a' :: 'l' :: 's' :: 'e' :: rest => some (bool false, rest)
    | '"' :: rest => (readString rest.length rest).map fun (s, rest) => (text (String.ofList s), rest)
    | '-' :: rest => readNumber true rest
    | '[' :: rest =>
      if depth = 0 then none
      else match skipBlank rest with
        | ']' :: rest => some (list [], rest)
        | rest => (readItems fuel (depth - 1) rest).map fun (vs, rest) => (list vs, rest)
    | '\x7b' :: rest =>
      if depth = 0 then none
      else match skipBlank rest with
        | '\x7d' :: rest => some (object [], rest)
        | rest => (readMembers fuel (depth - 1) rest).map fun (ms, rest) => (object ms, rest)
    | rest => readNumber false rest

/-- The items of a list up to its closing bracket. -/
def readItems : (fuel depth : Nat) → List Char → Option (List Json × List Char)
  | 0, _, _ => none
  | fuel + 1, depth, cs => do
    let (v, rest) ← readValue fuel depth cs
    match skipBlank rest with
    | ']' :: rest => return ([v], rest)
    | ',' :: rest =>
      let (vs, rest) ← readItems fuel depth rest
      return (v :: vs, rest)
    | _ => none

/-- The members of an object up to its closing brace. -/
def readMembers : (fuel depth : Nat) → List Char → Option (List (String × Json) × List Char)
  | 0, _, _ => none
  | fuel + 1, depth, cs =>
    match skipBlank cs with
    | '"' :: rest => do
      let (name, rest) ← readString rest.length rest
      match skipBlank rest with
      | ':' :: rest =>
        let (v, rest) ← readValue fuel depth rest
        match skipBlank rest with
        | '\x7d' :: rest => return ([(String.ofList name, v)], rest)
        | ',' :: rest =>
          let (ms, rest) ← readMembers fuel depth rest
          return ((String.ofList name, v) :: ms, rest)
        | _ => none
      | _ => none
    | _ => none

end

/-- The value of a JSON text with nothing but blanks around it. -/
def ofText? (s : String) : Option Json := do
  let cs := s.toList
  let (v, rest) ← readValue (2 * cs.length + 2) 127 cs
  if (skipBlank rest).isEmpty then some v else none

end OrderKeeper.Json
