import OrderKeeper.Decimal.Basic

/-!
# Decimal arithmetic

Each operation computes the exact result and then looks for room; `none` is a result that has none at any scale.

* A zero operand of a sum gives way: the other operand is the sum, with its own scale.
* A sum is kept at the larger of the two scales, a product at the sum of the scales, when there is room.
* A quotient is rounded at 28 fractional digits, or as many as there is room for, and written in lowest scale.
-/

namespace OrderKeeper.Decimal

/-- The sum, at the larger scale. -/
def add? (a b : Decimal) : Option Decimal :=
  if a.IsZero then some b
  else if b.IsZero then some a
  else
    let s := max a.scale b.scale
    fit? (a.coefficient * 10 ^ (s - a.scale) + b.coefficient * 10 ^ (s - b.scale)) s

/-- The difference. -/
def sub? (a b : Decimal) : Option Decimal := add? a b.neg

/-- The product; a product with zero is plain zero, and so is one of two short coefficients that lies far below the
last fractional digit. -/
def mul? (a b : Decimal) : Option Decimal :=
  if a.IsZero ∨ b.IsZero then some zero
  else if a.coefficient.natAbs < 2 ^ 32 ∧ b.coefficient.natAbs < 2 ^ 32 ∧ 47 < a.scale + b.scale then some zero
  else fit? (a.coefficient * b.coefficient) (a.scale + b.scale)

/-- The coefficient and scale with the trailing zeros of the fraction dropped. -/
def strip (n : Int) : Nat → Int × Nat
  | 0 => (n, 0)
  | s + 1 => if n % 10 = 0 then strip (n / 10) s else (n, s + 1)

theorem strip_natAbs_le (n : Int) (s : Nat) : (strip n s).1.natAbs ≤ n.natAbs := by
  induction s generalizing n with
  | zero => simp [strip]
  | succ s ih =>
    unfold strip
    split
    · exact Nat.le_trans (ih _) (by omega)
    · exact Nat.le_refl _

theorem strip_scale_le (n : Int) (s : Nat) : (strip n s).2 ≤ s := by
  induction s generalizing n with
  | zero => simp [strip]
  | succ s ih =>
    unfold strip
    split
    · exact Nat.le_succ_of_le (ih _)
    · exact Nat.le_refl _

/-- The same value in the lowest scale. -/
def normalize (a : Decimal) : Decimal :=
  ⟨(strip a.coefficient a.scale).1, (strip a.coefficient a.scale).2,
    Nat.lt_of_le_of_lt (strip_natAbs_le _ _) a.coefficient_lt, Nat.le_trans (strip_scale_le _ _) a.scale_le⟩

/-- The quotient; there is none by zero. -/
def div? (a b : Decimal) : Option Decimal :=
  if b.IsZero then none
  else if a.IsZero then some zero
  else
    let n := b.coefficient.sign * a.coefficient * 10 ^ b.scale
    let d := b.coefficient.natAbs * 10 ^ a.scale
    (nearestAt? n d 28 (by omega)).map normalize

/-- The sum of a list, from the left, starting from zero. -/
def sum? (xs : List Decimal) : Option Decimal := xs.foldlM add? zero

/-- The integer part of a number that is not negative. -/
def floorNat (a : Decimal) : Nat := (a.coefficient / 10 ^ a.scale).toNat

/-- Whether two numbers are no further apart than a tolerance. -/
def near? (a b tolerance : Decimal) : Option Bool := (a.sub? b).map fun gap => decide (gap.abs ≤ tolerance)

/-- Whether a number exceeds a limit by no more than a tolerance. -/
def within? (a limit tolerance : Decimal) : Option Bool := (limit.add? tolerance).map fun bound => decide (a ≤ bound)

/-- Zero at the scale of a number. -/
def zeroLike (a : Decimal) : Decimal := ⟨0, a.scale, zero.coefficient_lt, a.scale_le⟩

@[simp] theorem sum?_nil : sum? [] = some zero := rfl

theorem sum?_cons (x : Decimal) (xs : List Decimal) : sum? (x :: xs) = xs.foldlM add? x := by
  simp [sum?, List.foldlM_cons, add?, IsZero, zero]

theorem add?_of_isZero {a : Decimal} (h : a.IsZero) (b : Decimal) : add? a b = some b := by
  simp [add?, h]

end OrderKeeper.Decimal
