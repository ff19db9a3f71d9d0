/-!
# The calendar

Days are counted from 1 January 1970. `daysBefore y` counts the days from year 0 up to the start of year `y`, and
`monthLengths` lists the months of a year, so a date is a day of the year split along that list (`splitMonth`).

`dayNumber_ofDayNumber` says that a day number is that of its own date.
-/

namespace OrderKeeper

/-- A date of the calendar with leap years. -/
structure Date where
  year : Int
  month : Nat
  day : Nat
deriving DecidableEq

namespace Date

/-- Leap years. -/
def isLeap (y : Int) : Bool := y % 4 = 0 ∧ (y % 100 ≠ 0 ∨ y % 400 = 0)

/-- The lengths of the months of a year. -/
def monthLengths (y : Int) : List Nat :=
  [31, if isLeap y then 29 else 28, 31, 30, 31, 30, 31, 31, 30, 31, 30, 31]

/-- The days from the start of year 0 to the start of year `y`. -/
def daysBefore (y : Int) : Int := 365 * y + (y + 3) / 4 - (y + 99) / 100 + (y + 399) / 400

/-- The days from the start of year 0 to 1 January 1970. -/
def epoch : Int := 719528

/-- The days before the first day of a month, along a list of month lengths. -/
def monthStart : List Nat → Nat → Nat
  | _, 0 => 0
  | [], _ => 0
  | l :: ls, m + 1 => l + monthStart ls m

/-- The month, counted from zero, and the day of it, counted from zero, of a day of the year. -/
def splitMonth : List Nat → Nat → Nat × Nat
  | [], d => (0, d)
  | [_], d => (0, d)
  | l :: ls, d => if d < l then (0, d) else let (m, r) := splitMonth ls (d - l); (m + 1, r)

/-- The number of the day, counted from 1 January 1970. -/
def dayNumber (a : Date) : Int :=
  daysBefore a.year + monthStart (monthLengths a.year) (a.month - 1) + (a.day - 1 : Nat) - epoch

/-- The year in which the day `n`, counted from the start of year 0, lies. -/
def yearOf (n : Int) : Int :=
  let y := n * 400 / 146097
  if n < daysBefore y then y - 1 else if daysBefore (y + 1) ≤ n then y + 1 else y

/-- The date of a day number. -/
def ofDayNumber (n : Int) : Date :=
  let n := n + epoch
  let y := yearOf n
  let (m, d) := splitMonth (monthLengths y) (n - daysBefore y).toNat
  ⟨y, m + 1, d + 1⟩

/-- Whether the month and the day exist in the year. -/
def isValid (a : Date) : Bool :=
  1 ≤ a.month && a.month ≤ 12 && 1 ≤ a.day && a.day ≤ (monthLengths a.year).getD (a.month - 1) 0

theorem daysBefore_yearOf_le (n : Int) : daysBefore (yearOf n) ≤ n := by
  unfold yearOf daysBefore
  simp only
  split
  · omega
  · split <;> omega

theorem lt_daysBefore_yearOf_add_one (n : Int) : n < daysBefore (yearOf n + 1) := by
  unfold yearOf
  simp only
  split
  · rwa [Int.sub_add_cancel]
  · unfold daysBefore at *
    split <;> omega

/-- The day of the year that a split gives is the one that was split. -/
theorem monthStart_splitMonth (ls : List Nat) (d : Nat) :
    monthStart ls (splitMonth ls d).1 + (splitMonth ls d).2 = d := by
  fun_induction splitMonth ls d with
  | case1 d => simp [monthStart]
  | case2 l d => simp [monthStart]
  | case3 l ls d _ h => simp [monthStart]
  | case4 l ls d _ h m r hs ih =>
    rw [hs] at ih
    simp only at ih
    simp only [monthStart]
    omega

/-- A day number is that of its own date. -/
theorem dayNumber_ofDayNumber (n : Int) : (ofDayNumber n).dayNumber = n := by
  have hle := daysBefore_yearOf_le (n + epoch)
  have hsplit := monthStart_splitMonth (monthLengths (yearOf (n + epoch)))
    (n + epoch - daysBefore (yearOf (n + epoch))).toNat
  simp only [ofDayNumber, dayNumber, Nat.add_sub_cancel]
  omega

end Date

end OrderKeeper
