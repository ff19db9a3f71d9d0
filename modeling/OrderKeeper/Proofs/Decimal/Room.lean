import OrderKeeper.Proofs.Decimal.Exact

/-!
# Room for a sum

A sum of decimals has no room exactly when the true sum is too far from zero to be rounded to 96 bits (`HasRoom`,
`add?_eq_none_iff`), whatever the scales; differences are alike (`isSome_sub?_iff`). A list has a sum when every sum on
the way has room (`isSome_sum?_iff`). Sums of numbers that are not negative are not negative, and two such numbers always
have a difference (`hasRoom_sub`). However it is rounded, a sum of positive numbers is positive (`sum?_pos`).
-/

namespace OrderKeeper.Decimal

/-! ## Rounding -/

/-- A quotient is rounded to an even number or more when it comes as near to it as a half. -/
theorem le_natAbs_roundHalfEven {n : Int} {d k : Nat} (hd : 0 < d) (hk : 0 < k) :
    2 * k ≤ (roundHalfEven n d).natAbs ↔ (4 * k - 1) * d ≤ 2 * n.natAbs := by
  have hdiv := Nat.div_add_mod n.natAbs d
  have hmod := Nat.mod_lt n.natAbs hd
  set q := n.natAbs / d
  set r := n.natAbs % d
  have hround : (roundHalfEven n d).natAbs = if 2 * r < d ∨ 2 * r = d ∧ q % 2 = 0 then q else q + 1 := by
    by_cases hn : n = 0
    · have hq : q = 0 := by simp [q, hn]
      have hr : r = 0 := by simp [r, hn]
      simp [roundHalfEven, hn, hq, hr, hd]
    · simp only [roundHalfEven, Int.natAbs_mul, Int.natAbs_sign_of_ne_zero hn, one_mul, Int.natAbs_natCast]
      rfl
  -- the quotient is compared with the last number below the even one
  obtain ⟨j, rfl⟩ : ∃ j, k = j + 1 := ⟨k - 1, by omega⟩
  have hfour : 4 * (j + 1) - 1 = 4 * j + 3 := by omega
  rw [hround, hfour, ← hdiv]
  rcases Nat.lt_trichotomy q (2 * j + 1) with hlt | heq | hgt
  · have hle : d * q ≤ d * (2 * j) := Nat.mul_le_mul_left d (by omega)
    have hmul : (4 * j + 3) * d = 2 * (d * (2 * j)) + 3 * d := by ring
    split <;> omega
  · have hmul : (4 * j + 3) * d = 2 * (d * q) + d := by rw [heq]; ring
    split <;> omega
  · have hle : d * (2 * j + 2) ≤ d * q := Nat.mul_le_mul_left d (by omega)
    have hmul : (4 * j + 3) * d + d = 2 * (d * (2 * j + 2)) := by ring
    split <;> omega

theorem natAbs_roundHalfEven_lt_iff {n : Int} {d : Nat} (hd : 0 < d) :
    (roundHalfEven n d).natAbs < 2 ^ 96 ↔ 2 * n.natAbs < (2 ^ 97 - 1) * d := by
  have h := le_natAbs_roundHalfEven (n := n) hd (by decide : 0 < 2 ^ 95)
  rw [← Nat.not_le, ← Nat.not_le]
  exact not_congr h

theorem roundHalfEven_nonneg {n : Int} (hn : 0 ≤ n) (d : Nat) : 0 ≤ roundHalfEven n d :=
  Int.mul_nonneg (Int.sign_nonneg_iff.2 hn) (Int.natCast_nonneg _)

/-- There is no room at any scale when there is none at scale zero. -/
theorem nearestAt?_eq_none_iff {n : Int} {d target : Nat} (hd : 0 < d) (h : target ≤ 28) :
    nearestAt? n d target h = none ↔ (2 ^ 97 - 1) * d ≤ 2 * n.natAbs := by
  induction target with
  | zero => rw [nearestAt?, dite_eq_right_iff, ← Nat.not_lt, ← natAbs_roundHalfEven_lt_iff hd]; simp
  | succ target ih =>
    have hle : n.natAbs ≤ (n * 10 ^ (target + 1)).natAbs := by
      rw [Int.natAbs_mul, Int.natAbs_pow]
      exact Nat.le_mul_of_pos_right _ (by positivity)
    rw [nearestAt?]
    split
    next hroom =>
      rw [natAbs_roundHalfEven_lt_iff hd] at hroom
      simp only [reduceCtorEq, false_iff]
      omega
    next => exact ih (by omega)

theorem nearestAt?_nonneg {n : Int} {d target : Nat} {h : target ≤ 28} {c : Decimal} (hn : 0 ≤ n)
    (hc : nearestAt? n d target h = some c) : 0 ≤ c.coefficient := by
  induction target with
  | zero =>
    simp only [nearestAt?, Option.dite_none_right_eq_some, Option.some.injEq] at hc
    obtain ⟨-, rfl⟩ := hc
    exact roundHalfEven_nonneg hn d
  | succ target ih =>
    rw [nearestAt?] at hc
    split at hc
    · cases hc
      exact roundHalfEven_nonneg (by positivity) d
    · exact ih hc

/-! ## Sums of two -/

/-- A number that can be rounded to 96 bits. -/
def HasRoom (q : Rat) : Prop := |q| < 2 ^ 96 - 1 / 2

/-- The values of decimals have room. -/
theorem hasRoom_value (a : Decimal) : HasRoom a.value := by
  have hcoefficient : |(a.coefficient : Rat)| ≤ 2 ^ 96 - 1 := by
    have h := a.coefficient_lt
    rw [← Int.cast_abs, Int.abs_eq_natAbs, Int.cast_natCast, le_sub_iff_add_le]
    exact_mod_cast h
  have hpow : (1 : Rat) ≤ 10 ^ a.scale := one_le_pow₀ (by norm_num)
  rw [HasRoom, value_eq_div, abs_div, abs_of_pos (by positivity : (0 : Rat) < 10 ^ a.scale)]
  calc |(a.coefficient : Rat)| / 10 ^ a.scale ≤ |(a.coefficient : Rat)| := div_le_self (abs_nonneg _) hpow
    _ ≤ 2 ^ 96 - 1 := hcoefficient
    _ < 2 ^ 96 - 1 / 2 := by norm_num

/-- A quotient has no room at any scale exactly when it cannot be rounded to 96 bits. -/
theorem nearestAt?_eq_none_iff_not_hasRoom {n : Int} {d target : Nat} (hd : 0 < d) (h : target ≤ 28) :
    nearestAt? n d target h = none ↔ ¬ HasRoom ((n : Rat) / d) := by
  have hd' : (0 : Rat) < d := by exact_mod_cast hd
  rw [nearestAt?_eq_none_iff hd, HasRoom, Rat.not_lt, abs_div, abs_of_pos hd', le_div_iff₀ hd', ← Int.cast_abs,
    Int.abs_eq_natAbs, Int.cast_natCast]
  have hcast : (((2 ^ 97 - 1) * d : Nat) : Rat) = 2 * ((2 ^ 96 - 1 / 2) * d) := by
    push_cast
    ring
  rw [← Nat.cast_le (α := Rat), hcast]
  push_cast
  constructor
  · intro h
    linarith
  · intro h
    linarith

theorem fit?_eq_none_iff {n : Int} {s : Nat} : fit? n s = none ↔ ¬ HasRoom ((n : Rat) / 10 ^ s) := by
  rw [fit?, nearestAt?_eq_none_iff_not_hasRoom (Nat.pow_pos (by norm_num)), Nat.cast_pow]
  rfl

/-- **Room for a sum.** A sum has no room exactly when the true sum cannot be rounded to 96 bits. -/
theorem add?_eq_none_iff {a b : Decimal} : a.add? b = none ↔ ¬ HasRoom (a.value + b.value) := by
  by_cases ha : a.IsZero
  · simp [add?_of_isZero ha, isZero_iff_value_eq.1 ha, hasRoom_value]
  · by_cases hb : b.IsZero
    · have hsum : a.add? b = some a := by
        unfold add?
        rw [if_neg ha, if_pos hb]
      simp [hsum, isZero_iff_value_eq.1 hb, hasRoom_value]
    · rw [value_add_value]
      simp only [add?, ha, hb, if_false]
      exact fit?_eq_none_iff

theorem isSome_add?_iff {a b : Decimal} : (a.add? b).isSome = true ↔ HasRoom (a.value + b.value) := by
  rw [← not_iff_not, Bool.not_eq_true, Option.isSome_eq_false_iff, Option.isNone_iff_eq_none]
  exact add?_eq_none_iff

theorem value_neg (a : Decimal) : a.neg.value = -a.value := by
  rw [value_eq_div, value_eq_div]
  simp [neg, neg_div]

theorem isSome_sub?_iff {a b : Decimal} : (a.sub? b).isSome = true ↔ HasRoom (a.value - b.value) := by
  rw [sub?, isSome_add?_iff, value_neg, sub_eq_add_neg]

/-! ## Numbers that are not negative -/

theorem zero_le_iff {a : Decimal} : zero ≤ a ↔ 0 ≤ a.value := by rw [le_iff_value_le, value_zero]

theorem zero_le_iff_coefficient {a : Decimal} : zero ≤ a ↔ 0 ≤ a.coefficient := by
  rw [le_iff]
  simp [zero]

/-- Two numbers that are not negative are not too far apart for a difference. -/
theorem hasRoom_sub {a b : Decimal} (ha : zero ≤ a) (hb : zero ≤ b) : HasRoom (a.value - b.value) := by
  rw [zero_le_iff] at ha hb
  have hra := hasRoom_value a
  have hrb := hasRoom_value b
  rw [HasRoom, abs_of_nonneg ha] at hra
  rw [HasRoom, abs_of_nonneg hb] at hrb
  rw [HasRoom, abs_lt]
  constructor <;> linarith

theorem add?_nonneg {a b c : Decimal} (ha : zero ≤ a) (hb : zero ≤ b) (h : a.add? b = some c) : zero ≤ c := by
  rw [zero_le_iff_coefficient] at ha hb
  unfold add? at h
  split at h
  · cases h
    exact zero_le_iff_coefficient.2 hb
  · split at h
    · cases h
      exact zero_le_iff_coefficient.2 ha
    · exact zero_le_iff_coefficient.2 (nearestAt?_nonneg (by positivity) h)

/-! ## Sums of a list -/

/-- Every sum on the way through a list, from a number on, has room. -/
def SumsWithRoom (a : Decimal) (xs : List Decimal) : Prop :=
  Along add? (fun a x => HasRoom (a.value + x.value)) a xs

theorem isSome_sum?_iff {xs : List Decimal} : (sum? xs).isSome = true ↔ SumsWithRoom zero xs := by
  have h : ∀ a, (xs.foldlM add? a).isSome = true ↔ SumsWithRoom a xs := by
    induction xs with
    | nil => simp [SumsWithRoom, Along]
    | cons x xs ih =>
      intro a
      rw [SumsWithRoom, Along, ← isSome_add?_iff, List.foldlM_cons]
      cases hadd : a.add? x with
      | none => simp
      | some b => simpa [SumsWithRoom] using ih b
  exact h zero

theorem foldlM_add?_nonneg {xs : List Decimal} {a c : Decimal} (ha : zero ≤ a) (hxs : ∀ x ∈ xs, zero ≤ x)
    (h : xs.foldlM add? a = some c) : zero ≤ c := by
  induction xs generalizing a with
  | nil =>
    cases h
    exact ha
  | cons x xs ih =>
    simp only [List.foldlM_cons, Option.bind_eq_bind, Option.bind_eq_some_iff] at h
    obtain ⟨b, hb, h⟩ := h
    have hb0 := add?_nonneg ha (hxs x List.mem_cons_self) hb
    exact ih hb0 (fun y hy => hxs y (List.mem_cons_of_mem _ hy)) h

/-- A sum of numbers that are not negative is not negative. -/
theorem sum?_nonneg {xs : List Decimal} {c : Decimal} (hxs : ∀ x ∈ xs, zero ≤ x) (h : sum? xs = some c) : zero ≤ c :=
  foldlM_add?_nonneg (by decide) hxs h

/-! ## Positive numbers -/

theorem zero_lt_iff_coefficient {a : Decimal} : zero < a ↔ 0 < a.coefficient := by
  rw [lt_iff]
  simp [zero]

theorem zero_le_of_zero_lt {a : Decimal} (h : zero < a) : zero ≤ a :=
  zero_le_iff_coefficient.2 (zero_lt_iff_coefficient.1 h).le

/-- A quotient of one or more is not rounded to zero. -/
theorem roundHalfEven_pos {n : Int} {d : Nat} (hd : 0 < d) (hn : (d : Int) ≤ n) : 0 < roundHalfEven n d := by
  have hq : 1 ≤ n.natAbs / d := by
    rw [Nat.one_le_div_iff hd]
    omega
  have hsign : n.sign = 1 := Int.sign_eq_one_of_pos (by omega)
  unfold roundHalfEven
  dsimp only
  rw [hsign, Int.one_mul]
  split <;> omega

/-- What has no room at a scale is still far from zero at the next lower one. -/
theorem nearestAt?_pos {n : Int} {d target : Nat} {h : target ≤ 28} {c : Decimal} (hd : 0 < d)
    (hn : (d : Int) ≤ n * 10 ^ target) (hc : nearestAt? n d target h = some c) : 0 < c.coefficient := by
  induction target with
  | zero =>
    simp only [nearestAt?, Option.dite_none_right_eq_some, Option.some.injEq] at hc
    obtain ⟨-, rfl⟩ := hc
    exact roundHalfEven_pos hd (by simpa using hn)
  | succ target ih =>
    rw [nearestAt?] at hc
    split at hc
    · cases hc
      exact roundHalfEven_pos hd hn
    next hroom =>
      rw [natAbs_roundHalfEven_lt_iff hd] at hroom
      refine ih ?_ hc
      have hten : n * 10 ^ (target + 1) = 10 * (n * 10 ^ target) := by ring
      rw [hten] at hn hroom
      have hlarge : 20 * d ≤ (2 ^ 97 - 1) * d := Nat.mul_le_mul_right d (by norm_num)
      omega

/-- A sum of two numbers, neither of them negative, is positive when one of them is. -/
theorem add?_pos {a b c : Decimal} (ha : zero ≤ a) (hb : zero ≤ b) (hpos : zero < a ∨ zero < b)
    (h : a.add? b = some c) : zero < c := by
  rw [zero_le_iff_coefficient] at ha hb
  rw [zero_lt_iff_coefficient, zero_lt_iff_coefficient] at hpos
  unfold add? at h
  split at h
  next hzero =>
    cases h
    exact zero_lt_iff_coefficient.2 (hpos.resolve_left (by omega))
  next hazero =>
    split at h
    next hzero =>
      cases h
      exact zero_lt_iff_coefficient.2 (hpos.resolve_right (by omega))
    next hbzero =>
      have hscale : min (max a.scale b.scale) 28 = max a.scale b.scale :=
        Nat.min_eq_left (Nat.max_le.2 ⟨a.scale_le, b.scale_le⟩)
      refine zero_lt_iff_coefficient.2 (nearestAt?_pos (Nat.pow_pos (by norm_num)) ?_ h)
      have hsum : 0 < a.coefficient * 10 ^ (max a.scale b.scale - a.scale)
          + b.coefficient * 10 ^ (max a.scale b.scale - b.scale) := by
        have hfirst : 0 < a.coefficient := lt_of_le_of_ne ha fun hne => hazero hne.symm
        have hsecond : 0 < b.coefficient := lt_of_le_of_ne hb fun hne => hbzero hne.symm
        positivity
      rw [hscale]
      push_cast
      exact le_mul_of_one_le_left (by positivity) hsum

theorem foldlM_add?_pos {xs : List Decimal} {a c : Decimal} (ha : zero < a) (hxs : ∀ x ∈ xs, zero < x)
    (h : xs.foldlM add? a = some c) : zero < c := by
  induction xs generalizing a with
  | nil =>
    cases h
    exact ha
  | cons x xs ih =>
    simp only [List.foldlM_cons, Option.bind_eq_bind, Option.bind_eq_some_iff] at h
    obtain ⟨b, hb, h⟩ := h
    have hx := hxs x List.mem_cons_self
    have hpos := add?_pos (zero_le_of_zero_lt ha) (zero_le_of_zero_lt hx) (.inl ha) hb
    exact ih hpos (fun y hy => hxs y (List.mem_cons_of_mem _ hy)) h

/-- A sum of positive numbers is positive, unless there are none. -/
theorem sum?_pos {xs : List Decimal} {c : Decimal} (hxs : ∀ x ∈ xs, zero < x) (hne : xs ≠ [])
    (h : sum? xs = some c) : zero < c := by
  cases xs with
  | nil => exact absurd rfl hne
  | cons x xs =>
    rw [sum?_cons] at h
    exact foldlM_add?_pos (hxs x List.mem_cons_self) (fun y hy => hxs y (List.mem_cons_of_mem _ hy)) h

end OrderKeeper.Decimal
