import OrderKeeper.Time.Calendar

/-!
# Timestamps

A timestamp is a number of seconds since the start of 1970 and of nanoseconds within the second. Nanoseconds from one
billion on lie in a leap second, which follows the second they are counted with. The calendar reaches from
`firstSecond` to `lastSecond`; a date outside it does not exist.
-/

namespace OrderKeeper

/-- A point of universal time. -/
structure Timestamp where
  seconds : Int
  nanos : Nat
deriving DecidableEq, Inhabited

namespace Timestamp

instance : LE Timestamp := ⟨fun a b => a.seconds < b.seconds ∨ (a.seconds = b.seconds ∧ a.nanos ≤ b.nanos)⟩

instance (a b : Timestamp) : Decidable (a ≤ b) :=
  inferInstanceAs (Decidable (a.seconds < b.seconds ∨ (a.seconds = b.seconds ∧ a.nanos ≤ b.nanos)))

/-- The first second of the calendar. -/
def firstSecond : Int := (Date.mk (-262143) 1 1).dayNumber * 86400

/-- The last second of the calendar. -/
def lastSecond : Int := (Date.mk 262142 12 31).dayNumber * 86400 + 86399

theorem firstSecond_eq : firstSecond = -8334601228800 := by decide +kernel

theorem lastSecond_eq : lastSecond = 8210266876799 := by decide +kernel

/-- Whether the calendar has the second. -/
def inCalendar (seconds : Int) : Prop := firstSecond ≤ seconds ∧ seconds ≤ lastSecond

instance (s : Int) : Decidable (inCalendar s) := inferInstanceAs (Decidable (_ ∧ _))

/-- The time `n` nanoseconds later; leap seconds are not counted. -/
def later (t : Timestamp) (n : Nat) : Timestamp :=
  ⟨t.seconds + ((t.nanos + n) / 1000000000 : Nat), (t.nanos + n) % 1000000000⟩

/-- The time `ms` milliseconds earlier, when the calendar has it. -/
def earlier? (t : Timestamp) (ms : Nat) : Option Timestamp :=
  let total : Int := t.seconds * 1000000000 + t.nanos - ms * 1000000
  let seconds := total / 1000000000
  if inCalendar seconds then some ⟨seconds, (total % 1000000000).toNat⟩ else none

theorem le_refl (t : Timestamp) : t ≤ t := Or.inr ⟨rfl, Nat.le_refl _⟩

theorem le_iff {a b : Timestamp} : a ≤ b ↔ a.seconds < b.seconds ∨ (a.seconds = b.seconds ∧ a.nanos ≤ b.nanos) :=
  Iff.rfl

theorem le_trans {a b c : Timestamp} (hab : a ≤ b) (hbc : b ≤ c) : a ≤ c := by
  rw [le_iff] at *
  omega

end Timestamp

end OrderKeeper
