import OrderKeeper.Power

/-!
# Binary floating-point numbers

A `Binary64` is the 64-bit word of a binary floating-point number: a sign bit, eleven exponent bits and 52 fraction
bits. A finite word stands for `significand · 2 ^ power`. `ofRatio` rounds a quotient of natural numbers to the
nearest word, a half going to the even significand, and `ofWhole` a natural number.
-/

namespace OrderKeeper

/-- The word of a binary floating-point number. -/
structure Binary64 where
  bits : UInt64
deriving DecidableEq, Inhabited

namespace Binary64

/-- The word of a machine number. -/
def ofFloat (x : Float) : Binary64 := ⟨x.toBits⟩

/-- The machine number of a word. -/
def toFloat (x : Binary64) : Float := Float.ofBits x.bits

/-- The sign bit. -/
def isNegative (x : Binary64) : Bool := x.bits.toNat / 2 ^ 63 = 1

/-- The biased exponent. -/
def field (x : Binary64) : Nat := x.bits.toNat / 2 ^ 52 % 2 ^ 11

/-- The fraction bits. -/
def fraction (x : Binary64) : Nat := x.bits.toNat % 2 ^ 52

/-- Neither an infinity nor a NaN. -/
def isFinite (x : Binary64) : Bool := x.field ≠ 2047

/-- Not a number. -/
def isNaN (x : Binary64) : Bool := x.field = 2047 && x.fraction ≠ 0

/-- The integer significand of a finite word. -/
def significand (x : Binary64) : Nat := if x.field = 0 then x.fraction else 2 ^ 52 + x.fraction

/-- The power of two that the significand is multiplied by. -/
def power (x : Binary64) : Int := (if x.field = 0 then 1 else (x.field : Int)) - 1075

/-- The magnitude of a finite word as a numerator over a denominator. -/
def ratio (x : Binary64) : Nat × Nat := (x.significand * 2 ^ x.power.toNat, 2 ^ (-x.power).toNat)

/-- The quotient `n / d` rounded to an integer, a half to the even one. -/
def nearestNat (n d : Nat) : Nat :=
  let q := n / d
  let r := n % d
  if 2 * r < d ∨ (2 * r = d ∧ q % 2 = 0) then q else q + 1

/-- The exponent bits of the greatest numbers and the sign bit. -/
def infinity (negative : Bool) : Binary64 := ⟨UInt64.ofNat ((if negative then 2 ^ 63 else 0) + 2047 * 2 ^ 52)⟩

/-- A zero with its sign. -/
def zero (negative : Bool) : Binary64 := ⟨UInt64.ofNat (if negative then 2 ^ 63 else 0)⟩

/-- The power of two at which `n / d` has a significand of 53 bits, or the least one there is. -/
def powerFor (n d : Nat) : Int :=
  let e : Int := n.log2 - d.log2 - 52
  let fits := if 0 ≤ e then 2 ^ 52 * d * 2 ^ e.toNat ≤ n else 2 ^ 52 * d ≤ n * 2 ^ (-e).toNat
  max (if fits then e else e - 1) (-1074)

/-- The word nearest to `n / d`, with a sign. -/
def ofRatio (negative : Bool) (n d : Nat) : Binary64 :=
  if n = 0 then zero negative
  else
    let e := powerFor n d
    let m := nearestNat (n * 2 ^ (-e).toNat) (d * 2 ^ e.toNat)
    let word := m + (e + 1074).toNat * 2 ^ 52
    if 2047 * 2 ^ 52 ≤ word then infinity negative
    else ⟨UInt64.ofNat ((if negative then 2 ^ 63 else 0) + word)⟩

/-- The word nearest to a natural number. -/
def ofWhole (n : Nat) : Binary64 := ofRatio false n 1

/-- The word nearest to an integer. -/
def ofInt (n : Int) : Binary64 := ofRatio (n < 0) n.natAbs 1

/-- The word nearest to `digits · 10 ^ exponent`. -/
def ofScientific (negative : Bool) (digits : Nat) (exponent : Int) : Binary64 :=
  ofRatio negative (digits * 10 ^ exponent.toNat) (10 ^ (-exponent).toNat)

/-- The nearest natural number below `2 ^ 64`, a half going up; the least for a negative number and for NaN, the
greatest for one that is too large. -/
def nearestWhole (x : Binary64) : Nat :=
  if x.isNegative ∨ x.isNaN then 0
  else if x.isFinite then min ((2 * x.ratio.1 + x.ratio.2) / (2 * x.ratio.2)) (2 ^ 64 - 1)
  else 2 ^ 64 - 1

end Binary64

end OrderKeeper
