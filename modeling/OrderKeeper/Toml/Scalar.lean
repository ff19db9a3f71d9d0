import OrderKeeper.Binary64.Text
import OrderKeeper.Json.Reader
import OrderKeeper.Time.Calendar

/-!
# Single values of a TOML document

Strings have four forms: with escapes or without, on one line or on several. A line end in a string of several lines
is a line feed, also where the document has a carriage return before it.

Numbers may have underscores between digits; an integer has room in 64 bits with a sign. Dates and times are kept as
their text in one layout: `T` between date and time, a fraction without zeros at its end, `Z` or hours and minutes.

A reader gives the value and the text behind it.
-/

namespace OrderKeeper.Toml

open OrderKeeper.Text

/-- A blank within a line. -/
def isSpace (c : Char) : Bool := c = ' ' || c = '\t'

/-- The text without the blanks in front. -/
def skipSpace (cs : List Char) : List Char := cs.dropWhile isSpace

/-- A character that may stand in a line: anything but control characters, of which only the tab is allowed. -/
def isPlain (c : Char) : Bool := c = '\t' || (32 ≤ c.toNat && c.toNat ≠ 127)

/-- The text behind a line end. -/
def lineEnd? : List Char → Option (List Char)
  | '\n' :: rest => some rest
  | '\r' :: '\n' :: rest => some rest
  | _ => none

/-! ## Strings -/

/-- A character given by a number of hexadecimal digits. -/
def hexChar? (width : Nat) (cs : List Char) : Option (Char × List Char) := do
  let ds ← (cs.take width).mapM Json.hexValue?
  let n := ds.foldl (fun n d => 16 * n + d) 0
  if ds.length = width ∧ n.isValidChar then return (Char.ofNat n, cs.drop width) else none

/-- The character of an escape after its backslash. -/
def escaped? : List Char → Option (Char × List Char)
  | 'b' :: rest => some ('\x08', rest)
  | 't' :: rest => some ('\t', rest)
  | 'n' :: rest => some ('\n', rest)
  | 'f' :: rest => some ('\x0c', rest)
  | 'r' :: rest => some ('\r', rest)
  | '"' :: rest => some ('"', rest)
  | '\\' :: rest => some ('\\', rest)
  | 'u' :: rest => hexChar? 4 rest
  | 'U' :: rest => hexChar? 8 rest
  | _ => none

/-- The characters of a string of one line after its opening quote, read in `fuel` steps at most. -/
def readLine (quote : Char) (escapes : Bool) : (fuel : Nat) → List Char → Option (List Char × List Char)
  | 0, _ => none
  | _, [] => none
  | fuel + 1, c :: rest =>
    if c = quote then some ([], rest)
    else do
      let (c, rest) ← if c = '\\' ∧ escapes then escaped? rest else if isPlain c then some (c, rest) else none
      let (cs, rest) ← readLine quote escapes fuel rest
      return (c :: cs, rest)

/-- The text without the blanks and line ends in front. -/
def skipLines : List Char → List Char
  | ' ' :: rest => skipLines rest
  | '\t' :: rest => skipLines rest
  | '\n' :: rest => skipLines rest
  | '\r' :: '\n' :: rest => skipLines rest
  | cs => cs

/-- The text behind a backslash at the end of a line and all blanks and line ends after it; the backslash is gone. -/
def joined? (cs : List Char) : Option (List Char) := (lineEnd? (skipSpace cs)).map skipLines

/-- The characters of a string of several lines after its opening quotes, read in `fuel` steps at most. Up to two
quotes that belong to the string may stand before the closing ones. -/
def readLines (quote : Char) (escapes : Bool) : (fuel : Nat) → List Char → Option (List Char × List Char)
  | 0, _ => none
  | _, [] => none
  | fuel + 1, c :: rest =>
    if c = quote then
      let run := (rest.takeWhile (· = quote)).length + 1
      let after := rest.drop (run - 1)
      if 5 < run then none
      else if 3 ≤ run then some (List.replicate (run - 3) quote, after)
      else do
        let (cs, rest) ← readLines quote escapes fuel after
        return (List.replicate run quote ++ cs, rest)
    else match lineEnd? (c :: rest) with
      | some rest => do
        let (cs, rest) ← readLines quote escapes fuel rest
        return ('\n' :: cs, rest)
      | none =>
        if c = '\\' ∧ escapes then
          match joined? rest with
          | some rest => readLines quote escapes fuel rest
          | none => do
            let (c, rest) ← escaped? rest
            let (cs, rest) ← readLines quote escapes fuel rest
            return (c :: cs, rest)
        else if isPlain c then do
          let (cs, rest) ← readLines quote escapes fuel rest
          return (c :: cs, rest)
        else none

/-- A string of one line. -/
def readShort (quote : Char) : List Char → Option (String × List Char)
  | c :: rest =>
    if c = quote then (readLine quote (quote = '"') rest.length rest).map fun (s, rest) => (String.ofList s, rest)
    else none
  | [] => none

/-- A string of one line or of several. -/
def readText (quote : Char) (cs : List Char) : Option (String × List Char) :=
  if cs.take 3 = [quote, quote, quote] then
    let rest := cs.drop 3
    let rest := (lineEnd? rest).getD rest
    (readLines quote (quote = '"') rest.length rest).map fun (s, rest) => (String.ofList s, rest)
  else readShort quote cs

/-! ## Numbers -/

/-- The digits of a run in which an underscore may stand between two digits. -/
def ungrouped? (isDigit : Char → Bool) : List Char → Option (List Char)
  | [] => none
  | [c] => if isDigit c then some [c] else none
  | c :: '_' :: rest => if isDigit c then (c :: ·) <$> ungrouped? isDigit rest else none
  | c :: rest => if isDigit c then (c :: ·) <$> ungrouped? isDigit rest else none

/-- The longest run of digits and underscores, without the underscores. -/
def readDigits (isDigit : Char → Bool) (cs : List Char) : Option (List Char × List Char) := do
  let inRun := fun c => isDigit c || c = '_'
  return (← ungrouped? isDigit (cs.takeWhile inRun), cs.dropWhile inRun)

/-- The digits of a whole part, which has no zero in front of another digit. -/
def readWhole (cs : List Char) : Option (List Char × List Char) := do
  let (ds, rest) ← readDigits isDigit cs
  if ds.head? = some '0' ∧ ds ≠ ['0'] then none else return (ds, rest)

/-- An optional sign: whether it is a minus. -/
def readSign : List Char → Bool × List Char
  | '-' :: rest => (true, rest)
  | '+' :: rest => (false, rest)
  | cs => (false, cs)

/-- An integer that has room in 64 bits with a sign. -/
def bounded? (negative : Bool) (n : Nat) : Option Int :=
  if negative ∧ n ≤ 2 ^ 63 then some (-n) else if n < 2 ^ 63 then some n else none

/-- The digits of a number system and its base, by the letter that stands after the zero. -/
def systemOf? : Char → Option (Nat × (Char → Bool))
  | 'x' => some (16, fun c => (Json.hexValue? c).isSome)
  | 'o' => some (8, fun c => '0' ≤ c && c ≤ '7')
  | 'b' => some (2, fun c => c = '0' || c = '1')
  | _ => none

/-- An integer after a zero and the letter of its number system. -/
def readBased (base : Nat) (isDigit : Char → Bool) (cs : List Char) : Option (Int × List Char) := do
  let (ds, rest) ← readDigits isDigit cs
  let n := ds.foldl (fun n c => base * n + (Json.hexValue? c).getD 0) 0
  return (← bounded? false n, rest)

/-- An integer of decimal digits. -/
def readDecimal (cs : List Char) : Option (Int × List Char) := do
  let (negative, cs) := readSign cs
  let (ds, rest) ← readWhole cs
  return (← bounded? negative (numeral ds), rest)

/-- An integer. -/
def readInteger (cs : List Char) : Option (Int × List Char) :=
  match cs with
  | '0' :: c :: rest =>
    match systemOf? c with
    | some (base, isDigit) => readBased base isDigit rest
    | none => readDecimal cs
  | _ => readDecimal cs

/-- The fraction of a number after its point. -/
def readFraction : List Char → Option (List Char × List Char)
  | '.' :: rest => readDigits isDigit rest
  | cs => some ([], cs)

/-- The exponent of a number after its mark. -/
def readExponent : List Char → Option (Option Int × List Char)
  | c :: rest =>
    if c = 'e' ∨ c = 'E' then do
      let (negative, cs) := readSign rest
      let (ds, rest) ← readDigits isDigit cs
      return (some (if negative then -(numeral ds : Int) else numeral ds), rest)
    else some (none, c :: rest)
  | [] => some (none, [])

/-- An infinity or NaN by its name. -/
def readNamed (negative : Bool) : List Char → Option (Binary64 × List Char)
  | 'i' :: 'n' :: 'f' :: rest => some (.infinity negative, rest)
  | 'n' :: 'a' :: 'n' :: rest => some (⟨UInt64.ofNat (2047 * 2 ^ 52 + 2 ^ 51)⟩, rest)
  | _ => none

/-- A number with a fraction or an exponent. One too large is refused when it is positive and is an infinity when it is
negative. -/
def readPointed (negative : Bool) (cs : List Char) : Option (Binary64 × List Char) := do
  let (whole, rest) ← readWhole cs
  let (fraction, rest) ← readFraction rest
  let (exponent, rest) ← readExponent rest
  if fraction.isEmpty ∧ exponent.isNone then none
  let x := Binary64.ofDigits negative (whole ++ fraction) (exponent.getD 0 - fraction.length)
  if x = .infinity false then none else return (x, rest)

/-- A floating-point number. -/
def readReal (cs : List Char) : Option (Binary64 × List Char) :=
  let (negative, cs) := readSign cs
  (readPointed negative cs).or (readNamed negative cs)

/-! ## Dates and times -/

/-- A number of exactly `width` digits between two bounds. -/
def readField (width low high : Nat) (cs : List Char) : Option (Nat × List Char) :=
  let ds := cs.take width
  let n := numeral ds
  if ds.length = width ∧ ds.all isDigit ∧ low ≤ n ∧ n ≤ high then some (n, cs.drop width) else none

/-- The text behind a character. -/
def after? (c : Char) : List Char → Option (List Char)
  | x :: rest => if x = c then some rest else none
  | [] => none

/-- A date of the calendar, in its layout. -/
def readDate (cs : List Char) : Option (List Char × List Char) := do
  let (year, cs) ← readField 4 0 9999 cs
  let (month, cs) ← readField 2 1 12 (← after? '-' cs)
  let (day, cs) ← readField 2 1 31 (← after? '-' cs)
  if Date.isValid ⟨year, month, day⟩ then
    return (padded 4 year ++ '-' :: padded 2 month ++ '-' :: padded 2 day, cs)
  else none

/-- The fraction of a second in its layout: nine digits at most and no zeros at the end. -/
def readSecondFraction : List Char → Option (List Char × List Char)
  | '.' :: rest =>
    let ds := rest.takeWhile isDigit
    let kept := ((ds.take 9).reverse.dropWhile (· = '0')).reverse
    if ds.isEmpty then none
    else some (if kept.isEmpty then [] else '.' :: kept, rest.dropWhile isDigit)
  | cs => some ([], cs)

/-- A time of day, in its layout. -/
def readTime (cs : List Char) : Option (List Char × List Char) := do
  let (hour, cs) ← readField 2 0 23 cs
  let (minute, cs) ← readField 2 0 59 (← after? ':' cs)
  let (second, cs) ← readField 2 0 60 (← after? ':' cs)
  let (fraction, cs) ← readSecondFraction cs
  return (padded 2 hour ++ ':' :: padded 2 minute ++ ':' :: padded 2 second ++ fraction, cs)

/-- The offset from universal time, in its layout. -/
def readOffset : List Char → Option (List Char × List Char)
  | 'Z' :: rest => some (['Z'], rest)
  | 'z' :: rest => some (['Z'], rest)
  | c :: rest =>
    if c = '+' ∨ c = '-' then do
      let (hours, rest) ← readField 2 0 23 rest
      let (minutes, rest) ← readField 2 0 59 (← after? ':' rest)
      let sign := if c = '-' ∧ 0 < hours + minutes then '-' else '+'
      return (sign :: padded 2 hours ++ ':' :: padded 2 minutes, rest)
    else some ([], c :: rest)
  | [] => some ([], [])

/-- The time and offset behind a date, if there are any. -/
def readClock : List Char → Option (List Char × List Char)
  | c :: rest =>
    if c = 'T' ∨ c = 't' ∨ c = ' ' then do
      let (time, rest) ← readTime rest
      let (offset, rest) ← readOffset rest
      return ('T' :: time ++ offset, rest)
    else none
  | [] => none

/-- A date, a time, or both. -/
def readMoment (cs : List Char) : Option (String × List Char) :=
  match readDate cs with
  | some (date, rest) =>
    let (clock, rest) := (readClock rest).getD ([], rest)
    some (String.ofList (date ++ clock), rest)
  | none => (readTime cs).map fun (time, rest) => (String.ofList time, rest)

end OrderKeeper.Toml
