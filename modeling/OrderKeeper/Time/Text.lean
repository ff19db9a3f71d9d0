import OrderKeeper.Time.Timestamp
import OrderKeeper.Text.Blank
import OrderKeeper.Text.Digits

/-!
# The text of a timestamp

A timestamp is written in universal time as `YYYY-MM-DDTHH:MM:SS`, a fraction of three, six or nine digits when there
is one, and `Z`. A year outside 0 to 9999 has a sign; a leap second is written as second 60.

Reading is wider: numbers may be shorter and have blanks in front, the separator may be a blank or a small letter, a
fraction may have any length (what is beyond nine digits is cut), and the offset from universal time may be given by
hours and minutes.
-/

namespace OrderKeeper.Timestamp

open OrderKeeper.Text

/-- A year of four digits, or one with a sign and at least four. -/
def yearChars (y : Int) : List Char :=
  if 0 ≤ y ∧ y ≤ 9999 then padded 4 y.toNat
  else (if y < 0 then '-' else '+') :: padded 4 y.natAbs

/-- A fraction of a second in as few groups of three digits as it needs. -/
def fractionChars (nanos : Nat) : List Char :=
  if nanos = 0 then []
  else if nanos % 1000000 = 0 then '.' :: padded 3 (nanos / 1000000)
  else if nanos % 1000 = 0 then '.' :: padded 6 (nanos / 1000)
  else '.' :: padded 9 nanos

/-- The characters of a timestamp. -/
def toChars (t : Timestamp) : List Char :=
  let date := Date.ofDayNumber (t.seconds / 86400)
  let s := (t.seconds % 86400).toNat
  yearChars date.year ++ '-' :: padded 2 date.month ++ '-' :: padded 2 date.day
    ++ 'T' :: padded 2 (s / 3600) ++ ':' :: padded 2 (s / 60 % 60) ++ ':' :: padded 2 (s % 60 + t.nanos / 1000000000)
    ++ fractionChars (t.nanos % 1000000000) ++ ['Z']

/-- The text of a timestamp. -/
def toText (t : Timestamp) : String := String.ofList t.toChars

/-! ## Reading -/

/-- A number of one to `width` digits, with blanks in front. -/
def number? (width : Nat) (cs : List Char) : Option (Nat × List Char) :=
  let cs := dropBlank cs
  let ds := (cs.take width).takeWhile isDigit
  if ds.isEmpty then none else some (numeral ds, cs.drop ds.length)

/-- A year: four digits at most, or any number of them after a sign. -/
def year? (cs : List Char) : Option (Int × List Char) :=
  match dropBlank cs with
  | '-' :: rest => if rest.head?.any isDigit then (number? rest.length rest).map fun (y, r) => (-(y : Int), r) else none
  | '+' :: rest => if rest.head?.any isDigit then (number? rest.length rest).map fun (y, r) => ((y : Int), r) else none
  | rest => (number? 4 rest).map fun (y, r) => ((y : Int), r)

/-- A given character, with blanks in front. -/
def mark? (c : Char) (cs : List Char) : Option (List Char) :=
  match dropBlank cs with
  | x :: rest => if x = c then some rest else none
  | [] => none

/-- A fraction in nanoseconds; without a point it is zero. -/
def fraction? : List Char → Option (Nat × List Char)
  | '.' :: rest =>
    let ds := rest.takeWhile isDigit
    let kept := ds.take 9
    if ds.isEmpty then none else some (numeral kept * 10 ^ (9 - kept.length), rest.dropWhile isDigit)
  | rest => some (0, rest)

/-- Two digits. -/
def twoDigits? : List Char → Option (Nat × List Char)
  | a :: b :: rest => if isDigit a ∧ isDigit b then some (numeral [a, b], rest) else none
  | _ => none

/-- The seconds east of universal time: a letter, or a sign, hours and minutes. -/
def offset? (cs : List Char) : Option (Int × List Char) :=
  let signed := fun (negative : Bool) (rest : List Char) => do
    let (hours, rest) ← twoDigits? rest
    let (minutes, rest) ← twoDigits? (rest.dropWhile fun c => c = ':' || isBlank c)
    if minutes < 60 ∧ hours < 24 then
      let s : Int := hours * 3600 + minutes * 60
      some (if negative then -s else s, rest)
    else none
  match dropBlank cs with
  | 'Z' :: rest => some (0, rest)
  | 'z' :: rest => some (0, rest)
  | '+' :: rest => signed false rest
  | '-' :: rest => signed true rest
  | '−' :: rest => signed true rest
  | rest => if (rest.take 3).map Char.toLower = ['u', 't', 'c'] then some (0, rest.drop 3) else none

/-- The timestamp of a local date and time and its offset, when they exist. -/
def ofLocal? (date : Date) (hour minute second nanos : Nat) (offset : Int) : Option Timestamp :=
  if date.isValid ∧ hour < 24 ∧ minute < 60 ∧ second ≤ 60 then
    let leap := second / 60
    let seconds : Int := date.dayNumber * 86400 + hour * 3600 + minute * 60 + (second - leap : Nat)
    if inCalendar seconds ∧ inCalendar (seconds - offset) then
      some ⟨seconds - offset, nanos + leap * 1000000000⟩
    else none
  else none

/-- The date and time separator. -/
def separator? : List Char → Option (List Char)
  | 'T' :: rest => some rest
  | 't' :: rest => some rest
  | ' ' :: rest => some rest
  | _ => none

/-- The timestamp that the characters of a text denote. -/
def ofChars? (cs : List Char) : Option Timestamp := do
  let (year, cs) ← year? cs
  let (month, cs) ← number? 2 (← mark? '-' cs)
  let (day, cs) ← number? 2 (← mark? '-' cs)
  let (hour, cs) ← number? 2 (← separator? cs)
  let (minute, cs) ← number? 2 (← mark? ':' cs)
  let (second, cs) ← number? 2 (← mark? ':' cs)
  let (nanos, cs) ← fraction? cs
  let (offset, cs) ← offset? cs
  if (dropBlank cs).isEmpty then ofLocal? ⟨year, month, day⟩ hour minute second nanos offset else none

/-- The timestamp that a text denotes. -/
def ofText? (s : String) : Option Timestamp := ofChars? s.toList

end OrderKeeper.Timestamp
