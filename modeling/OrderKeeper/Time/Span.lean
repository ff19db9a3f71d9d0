import OrderKeeper.Text.Digits

/-!
# Spans of time

A span is a number of nanoseconds. Its text has the largest unit that leaves a whole part, and the fraction without
trailing zeros.
-/

namespace OrderKeeper.Span

open OrderKeeper.Text

/-- Nanoseconds in a millisecond. -/
def milli : Nat := 1000000

/-- A span of milliseconds. -/
def ofMillis (ms : Nat) : Nat := ms * milli

/-- A span of seconds. -/
def ofSeconds (s : Nat) : Nat := s * 1000000000

/-- The whole milliseconds of a span. -/
def toMillis (span : Nat) : Nat := span / milli

/-- A fraction of `width` places without its trailing zeros, with its point. -/
def fractionChars (width n : Nat) : List Char :=
  let ds := ((padded width n).reverse.dropWhile (· = '0')).reverse
  if n = 0 then [] else '.' :: ds

/-- The text of a span in its largest unit. -/
def toText (span : Nat) : String :=
  let inUnit := fun (places : Nat) (unit : String) =>
    String.ofList (digits (span / 10 ^ places) ++ fractionChars places (span % 10 ^ places)) ++ unit
  if 1000000000 ≤ span then inUnit 9 "s"
  else if 1000000 ≤ span then inUnit 6 "ms"
  else if 1000 ≤ span then inUnit 3 "µs"
  else inUnit 0 "ns"

end OrderKeeper.Span
