import OrderKeeper.Time.Span

/-!
# Timers

A clock counts nanoseconds. A timer ends at a tick, and ticks are whole milliseconds: a timer of a span ends at the
first tick that is not before its end (`dueTick`). Moving the clock to a tick keeps its part below a millisecond
(`moveTo`), so a clock of whole milliseconds stays one.
-/

namespace OrderKeeper.Timer

/-- The tick that a clock has reached. -/
def tickOf (now : Nat) : Nat := now / Span.milli

/-- The first tick that is not before an instant. -/
def tickNotBefore (instant : Nat) : Nat := (instant + (Span.milli - 1)) / Span.milli

/-- The tick at which a timer ends that is begun now. -/
def dueTick (now span : Nat) : Nat := tickNotBefore (now + span)

/-- The clock moved to a tick. -/
def moveTo (now tick : Nat) : Nat := now + (tick - tickOf now) * Span.milli

theorem tickNotBefore_mono {a b : Nat} (h : a ≤ b) : tickNotBefore a ≤ tickNotBefore b :=
  Nat.div_le_div_right (Nat.add_le_add_right h _)

theorem tickOf_le_dueTick (now span : Nat) : tickOf now ≤ dueTick now span :=
  Nat.div_le_div_right (Nat.le_trans (Nat.le_add_right now span) (Nat.le_add_right _ _))

end OrderKeeper.Timer
