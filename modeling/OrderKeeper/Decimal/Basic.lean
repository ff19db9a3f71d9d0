import OrderKeeper.Power

/-!
# Decimal numbers

A `Decimal` is an integer coefficient of at most 96 bits over a power of ten of at most 28, and keeps its scale:
`1.50` and `1.5` are different decimals of the same `value`. Zero has no sign.

* `roundHalfEven` is the integer nearest to a quotient, a half going to the even neighbour.
* `nearestAt?` writes a quotient at the largest scale that has room for it; `fit?` does so for
  `n / 10 ^ scale`, no further than its own scale.
* Order and sameness compare values, not scales.
-/

namespace OrderKeeper

/-- The nearest integer to `n / d`; of two equally near the even one. -/
def roundHalfEven (n : Int) (d : Nat) : Int :=
  let q := n.natAbs / d
  let r := n.natAbs % d
  let m := if 2 * r < d ∨ (2 * r = d ∧ q % 2 = 0) then q else q + 1
  n.sign * m

/-- The number `coefficient / 10 ^ scale`. -/
structure Decimal where
  coefficient : Int
  scale : Nat
  coefficient_lt : coefficient.natAbs < 2 ^ 96
  scale_le : scale ≤ 28
deriving DecidableEq

namespace Decimal

/-- The rational number that a decimal stands for. -/
def value (a : Decimal) : Rat := mkRat a.coefficient (10 ^ a.scale)

/-- An integer of at most 64 bits, at scale 0. -/
def ofNat64 (n : UInt64) : Decimal :=
  ⟨n.toNat, 0, by have := n.toNat_lt; simp; omega, by omega⟩

/-- Zero at scale 0. -/
def zero : Decimal := ⟨0, 0, by decide, by decide⟩

/-- One hundred at scale 0. -/
def hundred : Decimal := ⟨100, 0, by decide, by decide⟩

/-- The integer `n` at scale 0, when it has room. -/
def ofInt? (n : Int) : Option Decimal :=
  if h : n.natAbs < 2 ^ 96 then some ⟨n, 0, h, by omega⟩ else none

instance : Inhabited Decimal := ⟨zero⟩

instance : LE Decimal := ⟨fun a b => a.coefficient * 10 ^ b.scale ≤ b.coefficient * 10 ^ a.scale⟩

instance : LT Decimal := ⟨fun a b => a.coefficient * 10 ^ b.scale < b.coefficient * 10 ^ a.scale⟩

instance (a b : Decimal) : Decidable (a ≤ b) :=
  inferInstanceAs (Decidable (a.coefficient * 10 ^ b.scale ≤ b.coefficient * 10 ^ a.scale))

instance (a b : Decimal) : Decidable (a < b) :=
  inferInstanceAs (Decidable (a.coefficient * 10 ^ b.scale < b.coefficient * 10 ^ a.scale))

/-- Equality of values, whatever the scales. -/
def Same (a b : Decimal) : Prop := a.coefficient * 10 ^ b.scale = b.coefficient * 10 ^ a.scale

instance (a b : Decimal) : Decidable (a.Same b) :=
  inferInstanceAs (Decidable (a.coefficient * 10 ^ b.scale = b.coefficient * 10 ^ a.scale))

theorem le_iff {a b : Decimal} : a ≤ b ↔ a.coefficient * 10 ^ b.scale ≤ b.coefficient * 10 ^ a.scale := Iff.rfl

theorem lt_iff {a b : Decimal} : a < b ↔ a.coefficient * 10 ^ b.scale < b.coefficient * 10 ^ a.scale := Iff.rfl

theorem not_le {a b : Decimal} : ¬ a ≤ b ↔ b < a := by rw [le_iff, lt_iff, Int.not_le]

theorem not_lt {a b : Decimal} : ¬ a < b ↔ b ≤ a := by rw [le_iff, lt_iff, Int.not_lt]

/-- Zero at any scale. -/
abbrev IsZero (a : Decimal) : Prop := a.coefficient = 0

/-- The same number with the opposite sign. -/
def neg (a : Decimal) : Decimal := { a with
  coefficient := -a.coefficient
  coefficient_lt := by rw [Int.natAbs_neg]; exact a.coefficient_lt }

/-- The distance to zero. -/
def abs (a : Decimal) : Decimal := { a with
  coefficient := a.coefficient.natAbs
  coefficient_lt := by rw [Int.natAbs_natCast]; exact a.coefficient_lt }

/-- The larger of two; the first when they are equal. -/
def larger (a b : Decimal) : Decimal := if a < b then b else a

/-! ## Finding room for an exact quotient -/

/-- The quotient `n / d` rounded at the largest scale up to `target` at which the coefficient has room. -/
def nearestAt? (n : Int) (d : Nat) : (target : Nat) → target ≤ 28 → Option Decimal
  | 0, h =>
    let c := roundHalfEven n d
    if hc : c.natAbs < 2 ^ 96 then some ⟨c, 0, hc, h⟩ else none
  | target + 1, h =>
    let c := roundHalfEven (n * 10 ^ (target + 1)) d
    if hc : c.natAbs < 2 ^ 96 then some ⟨c, target + 1, hc, h⟩ else nearestAt? n d target (by omega)

/-- The decimal for `n / 10 ^ scale`: as many fractional digits as the scale and the coefficient have room for. -/
def fit? (n : Int) (scale : Nat) : Option Decimal := nearestAt? n (10 ^ scale) (min scale 28) (by omega)

/-- A number over a divisor of it is rounded to the exact quotient. -/
theorem roundHalfEven_mul (n : Int) {d : Nat} (hd : 0 < d) : roundHalfEven (n * d) d = n := by
  have habs : (n * (d : Int)).natAbs = n.natAbs * d := by rw [Int.natAbs_mul, Int.natAbs_natCast]
  have hsign : (n * (d : Int)).sign = n.sign := by
    rw [Int.sign_mul, Int.sign_eq_one_of_pos (by omega : (0 : Int) < d), Int.mul_one]
  simp only [roundHalfEven, habs, hsign, Nat.mul_mod_left, Nat.mul_div_cancel _ hd, Nat.mul_zero, hd, true_or, if_true]
  exact Int.sign_mul_natAbs n

end Decimal

end OrderKeeper
