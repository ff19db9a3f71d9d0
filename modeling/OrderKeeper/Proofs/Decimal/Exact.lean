import Mathlib.Algebra.Order.Field.Basic
import Mathlib.Algebra.Order.Ring.Rat
import Mathlib.Tactic.FieldSimp
import Mathlib.Tactic.Linarith
import Mathlib.Tactic.Positivity
import Mathlib.Tactic.Ring
import OrderKeeper.Decimal.Arithmetic
import OrderKeeper.Proofs.Along

/-!
# Exact sums

Order and sameness of decimals are those of their values (`le_iff_value_le`, `lt_iff_value_lt`, `same_iff_value_eq`).

A sum is *exact* when it has room and its value is the sum of the values (`AddsExactly`). A list sums exactly when every
sum on the way does (`SumsExactly`); its total is then the total of the values (`sum?_of_sumsExactly`). Differences are
exact in the same sense (`SubsExactly`).
-/

namespace OrderKeeper.Decimal

/-! ## Values -/

theorem value_eq_div (a : Decimal) : a.value = (a.coefficient : Rat) / (10 : Rat) ^ a.scale := by
  unfold value
  rw [Rat.mkRat_eq_div]
  push_cast
  rfl

theorem le_iff_value_le {a b : Decimal} : a ≤ b ↔ a.value ≤ b.value := by
  rw [value_eq_div, value_eq_div, div_le_div_iff₀ (by positivity) (by positivity), le_iff]
  norm_cast

theorem lt_iff_value_lt {a b : Decimal} : a < b ↔ a.value < b.value := by
  rw [← not_le, le_iff_value_le, lt_iff_not_ge]

theorem same_iff_value_eq {a b : Decimal} : a.Same b ↔ a.value = b.value := by
  rw [value_eq_div, value_eq_div, div_eq_div_iff (by positivity) (by positivity), Same]
  norm_cast

theorem isZero_iff_value_eq {a : Decimal} : a.IsZero ↔ a.value = 0 := by
  rw [value_eq_div, div_eq_zero_iff]
  simp

@[simp] theorem value_zero : zero.value = 0 := isZero_iff_value_eq.1 rfl

/-! ## Sums of two -/

/-- The sum has room and is not rounded. -/
def AddsExactly (a b : Decimal) : Prop := ∃ c ∈ a.add? b, c.value = a.value + b.value

instance (a b : Decimal) : Decidable (a.AddsExactly b) := inferInstanceAs (Decidable (∃ c ∈ a.add? b, _))

/-- The sum of two values, over the larger power of ten. -/
theorem value_add_value (a b : Decimal) : a.value + b.value
    = ((a.coefficient * 10 ^ (max a.scale b.scale - a.scale)
      + b.coefficient * 10 ^ (max a.scale b.scale - b.scale) : Int) : Rat) / 10 ^ max a.scale b.scale := by
  obtain ⟨i, hi⟩ := Nat.exists_eq_add_of_le (Nat.le_max_left a.scale b.scale)
  obtain ⟨j, hj⟩ := Nat.exists_eq_add_of_le (Nat.le_max_right a.scale b.scale)
  have hi' : max a.scale b.scale - a.scale = i := by omega
  have hj' : max a.scale b.scale - b.scale = j := by omega
  have hpow : (10 : Rat) ^ a.scale * 10 ^ i = 10 ^ b.scale * 10 ^ j := by rw [← pow_add, ← pow_add, ← hi, hj]
  rw [hi', hj', value_eq_div, value_eq_div, hi, pow_add]
  push_cast
  rw [add_div]
  congr 1
  · field_simp
  · rw [hpow]; field_simp

/-- The difference has room and is not rounded. -/
def SubsExactly (a b : Decimal) : Prop := ∃ c ∈ a.sub? b, c.value = a.value - b.value

instance (a b : Decimal) : Decidable (a.SubsExactly b) := inferInstanceAs (Decidable (∃ c ∈ a.sub? b, _))

@[simp] theorem value_zeroLike (a : Decimal) : a.zeroLike.value = 0 := isZero_iff_value_eq.1 rfl

/-! ## Sums of a list -/

/-- Every sum on the way through a list, from a number on, is exact. -/
def SumsExactly (a : Decimal) (xs : List Decimal) : Prop := Along add? AddsExactly a xs

instance (a : Decimal) (xs : List Decimal) : Decidable (SumsExactly a xs) :=
  inferInstanceAs (Decidable (Along add? AddsExactly a xs))

/-- The values of a list, added up. -/
def totalValue (xs : List Decimal) : Rat := (xs.map value).sum

@[simp] theorem totalValue_nil : totalValue [] = 0 := rfl

@[simp] theorem totalValue_cons (x : Decimal) (xs : List Decimal) :
    totalValue (x :: xs) = x.value + totalValue xs := by simp [totalValue]

theorem foldlM_add?_of_sumsExactly {a : Decimal} {xs : List Decimal} (h : SumsExactly a xs) :
    ∃ c, xs.foldlM add? a = some c ∧ c.value = a.value + totalValue xs := by
  induction xs generalizing a with
  | nil => exact ⟨a, rfl, by simp⟩
  | cons x xs ih =>
    obtain ⟨⟨b, hb, hbv⟩, hrest⟩ := h
    obtain ⟨c, hc, hcv⟩ := ih (hrest b hb)
    refine ⟨c, ?_, by rw [hcv, hbv, totalValue_cons, add_assoc]⟩
    rw [List.foldlM_cons, Option.mem_def.1 hb]
    exact hc

/-- A list that sums exactly has the total of its values as its sum. -/
theorem sum?_of_sumsExactly {xs : List Decimal} (h : SumsExactly zero xs) :
    ∃ c, sum? xs = some c ∧ c.value = totalValue xs := by
  obtain ⟨c, hc, hv⟩ := foldlM_add?_of_sumsExactly h
  exact ⟨c, hc, by rw [hv, value_zero, zero_add]⟩

end OrderKeeper.Decimal
