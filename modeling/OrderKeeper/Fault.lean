/-!
# Faults

A fault ends an operation without an answer: no value of the declared type exists. Everything that an exchange or
a caller can answer or refuse is an error value of its own; a fault is neither, so it has no text.
-/

namespace OrderKeeper

/-- Why an operation has no answer. -/
inductive Fault where
  /-- A result does not fit the range of `Decimal`. -/
  | overflow
  /-- A byte limit falls inside a character. -/
  | splitCharacter
  /-- A count leaves its fixed width. -/
  | count
deriving DecidableEq, Repr

end OrderKeeper
