import OrderKeeper.Quota.Window
import OrderKeeper.Settings.Basic

/-!
# Backoff

Each failure in a row waits longer than the one before: the delay grows by a factor up to a bound, chance takes a part
off it, and it never falls below the delay before (`Backoff.failure`). A success forgets the failures.
-/

namespace OrderKeeper

/-- How delays grow. Spans are in nanoseconds. -/
structure BackoffPolicy where
  base : Nat
  max : Nat
  factor : Float
  /-- The part of a delay that chance may take off. -/
  jitter : Float
deriving Inhabited

namespace BackoffPolicy

/-- The policy of a stream. -/
def ofSettings (s : StreamSettings) : BackoffPolicy where
  base := Span.ofMillis s.backoffBaseMs
  max := Span.ofMillis s.backoffMaxMs
  factor := s.backoffMultiplier.toFloat
  jitter := s.backoffJitter.toFloat

/-- A power by repeated squaring: the result so far is multiplied by the square for each bit that is set. -/
def powerFrom (result x : Float) (n : Nat) : Float :=
  if n = 0 then result
  else if n = 1 then result * x
  else powerFrom (if n % 2 = 1 then result * x else result) (x * x) (n / 2)
termination_by n

/-- A number to a power. -/
def power (x : Float) (n : Nat) : Float := powerFrom 1.0 x n

/-- The larger of two numbers; the other one, if one of them is not a number. -/
def larger (a b : Float) : Float := if a.isNaN then b else if b.isNaN then a else if a < b then b else a

/-- A number between zero and one; what is not a number stays so. -/
def unit (x : Float) : Float := if x < 0.0 then 0.0 else if 1.0 < x then 1.0 else x

/-- The delay before chance of the `attempt`-th failure in a row, counted from one: whole milliseconds. -/
def nominal (p : BackoffPolicy) (attempt : Nat) : Nat :=
  let growth := power (larger p.factor 1.0) (min (attempt - 1) 64)
  let ms := (Span.toMillis p.base).toUInt64.toFloat * growth
  Span.ofMillis (Pool.smaller ms (Span.toMillis p.max).toUInt64.toFloat).toUInt64.toNat

end BackoffPolicy

/-- The failures so far. -/
structure Backoff where
  attempt : Nat := 0
  nextAt : Option Nat := none
  lastDelay : Nat := 0
deriving DecidableEq, Inhabited

namespace Backoff

/-- The state after a failure, and the delay; `sample` is the draw of chance between zero and one. -/
def failure (s : Backoff) (p : BackoffPolicy) (now : Nat) (sample : Float) : Backoff × Nat :=
  let attempt := min (s.attempt + 1) (2 ^ 32 - 1)
  let part := BackoffPolicy.unit p.jitter * sample
  let shortened := Pool.spanOf (Pool.seconds (p.nominal attempt) * (1.0 - part))
  let delay := min (max shortened s.lastDelay) p.max
  ({ attempt, nextAt := some (now + delay), lastDelay := delay }, delay)

/-- The state after a success. -/
def success (_ : Backoff) : Backoff := {}

/-- The wait until the next attempt. -/
def remaining (s : Backoff) (now : Nat) : Nat := (s.nextAt.map (· - now)).getD 0

end Backoff

end OrderKeeper
