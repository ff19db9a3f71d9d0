import OrderKeeper.Proofs.Decimal.Room

/-!
# Rounding crosses no decimal

A quotient is written at the largest scale that has room for it, and rounded there. However few digits that leaves, the
result lies on the same side of every decimal as the quotient does (`Rounds`). This is clear for decimals that have no
more fractional digits than the result (`roundHalfEven_le`, `le_roundHalfEven`). The others are nearer to zero than
both: digits are dropped only when one more has no room, and then the rounded coefficient with a further zero behind
it exceeds 96 bits (`abs_value_lt_of_full`).

So sums, differences, products and quotients round in this sense (`rounds_of_add?`, `mul?_spec`, `div?_spec`), and a
result that is a decimal is not rounded at all (`Rounds.value_eq`).
-/

namespace OrderKeeper.Decimal

/-- A decimal on the same side of every decimal as a number. -/
def Rounds (q : Rat) (c : Decimal) : Prop :=
  ∀ r : Decimal, (q ≤ r.value → c.value ≤ r.value) ∧ (r.value ≤ q → r.value ≤ c.value)

section Rounds

variable {q : Rat} {c r : Decimal}

theorem Rounds.le (h : Rounds q c) (hr : q ≤ r.value) : c.value ≤ r.value := (h r).1 hr

theorem Rounds.ge (h : Rounds q c) (hr : r.value ≤ q) : r.value ≤ c.value := (h r).2 hr

/-- What is a decimal is not rounded. -/
theorem Rounds.value_eq (h : Rounds q c) (hr : r.value = q) : c.value = q :=
  hr ▸ le_antisymm (h.le hr.ge) (h.ge hr.le)

theorem rounds_of_value_eq (h : c.value = q) : Rounds q c := by
  subst h
  exact fun r => ⟨id, id⟩

end Rounds

/-! ## Rounding to integers -/

section Integers

variable {n k : Int} {d : Nat}

/-- The nearest integer is no further than a half. -/
theorem abs_roundHalfEven_sub_le (n : Int) (hd : 0 < d) : |2 * (roundHalfEven n d * d - n)| ≤ d := by
  have hdiv := Nat.div_add_mod n.natAbs d
  have hmod := Nat.mod_lt n.natAbs hd
  have hsign : n.sign * n.natAbs = n := Int.sign_mul_natAbs n
  set q := n.natAbs / d
  set r := n.natAbs % d
  -- both candidates, measured from the magnitude
  have hnear : |2 * (((if 2 * r < d ∨ 2 * r = d ∧ q % 2 = 0 then q else q + 1 : Nat) : Int) * d - n.natAbs)| ≤ d := by
    have hcast : (n.natAbs : Int) = q * d + r := by rw [← hdiv, mul_comm d q]; push_cast; rfl
    rw [hcast, abs_le]
    split
    · constructor <;> omega
    · push_cast
      rw [add_mul, one_mul]
      constructor <;> omega
  have hround : roundHalfEven n d * d - n
      = n.sign * (((if 2 * r < d ∨ 2 * r = d ∧ q % 2 = 0 then q else q + 1 : Nat) : Int) * d - n.natAbs) := by
    rw [mul_sub, hsign, roundHalfEven, mul_assoc]
  rw [hround, mul_left_comm, abs_mul]
  refine le_trans (mul_le_of_le_one_left (abs_nonneg _) ?_) hnear
  rcases Int.sign_trichotomy n with h | h | h <;> simp [h]

theorem roundHalfEven_le (hd : 0 < d) (h : n ≤ k * d) : roundHalfEven n d ≤ k := by
  have hnear := (abs_le.1 (abs_roundHalfEven_sub_le n hd)).2
  by_contra hlt
  have hstep : (k + 1) * d ≤ roundHalfEven n d * d := mul_le_mul_of_nonneg_right (by omega) (by positivity)
  have hd' : (0 : Int) < d := by exact_mod_cast hd
  linarith

theorem le_roundHalfEven (hd : 0 < d) (h : k * d ≤ n) : k ≤ roundHalfEven n d := by
  have hnear := (abs_le.1 (abs_roundHalfEven_sub_le n hd)).1
  by_contra hlt
  have hstep : roundHalfEven n d * d ≤ (k - 1) * d := mul_le_mul_of_nonneg_right (by omega) (by positivity)
  have hd' : (0 : Int) < d := by exact_mod_cast hd
  linarith

end Integers

/-! ## Rounding to a scale -/

section Scales

variable {n : Int} {d : Nat} {c r : Decimal}

/-- A quotient is rounded at the scale of the result, and at the next larger one it has no room. -/
theorem nearestAt?_spec {target : Nat} {h : target ≤ 28} (hc : nearestAt? n d target h = some c) :
    c.coefficient = roundHalfEven (n * 10 ^ c.scale) d ∧ c.scale ≤ target
      ∧ (c.scale < target → 2 ^ 96 ≤ (roundHalfEven (n * 10 ^ (c.scale + 1)) d).natAbs) := by
  induction target with
  | zero =>
    simp only [nearestAt?, Option.dite_none_right_eq_some, Option.some.injEq] at hc
    obtain ⟨-, rfl⟩ := hc
    exact ⟨by simp, le_refl _, fun hlt => absurd hlt (lt_irrefl _)⟩
  | succ target ih =>
    rw [nearestAt?] at hc
    split at hc
    · cases hc
      exact ⟨rfl, le_refl _, fun hlt => absurd hlt (lt_irrefl _)⟩
    next hfull =>
      obtain ⟨hcoefficient, hle, hlater⟩ := ih hc
      refine ⟨hcoefficient, by omega, fun _ => ?_⟩
      rcases hle.lt_or_eq with hlt | heq
      · exact hlater hlt
      · rw [heq]
        exact Nat.not_lt.1 hfull

theorem abs_value_mul_pow (a : Decimal) : |a.value| * 10 ^ a.scale = |(a.coefficient : Rat)| := by
  have hpow : (0 : Rat) < 10 ^ a.scale := by positivity
  rw [value_eq_div, abs_div, abs_of_pos hpow, div_mul_cancel₀ _ hpow.ne']

/-- When one more digit has no room, a decimal with more digits is nearer to zero than the quotient and the result. -/
theorem abs_value_lt_of_full (hd : 0 < d) (hcoefficient : c.coefficient = roundHalfEven (n * 10 ^ c.scale) d)
    (hfull : 2 ^ 96 ≤ (roundHalfEven (n * 10 ^ (c.scale + 1)) d).natAbs) (hr : c.scale < r.scale) :
    |r.value| < |(n : Rat) / d| ∧ |r.value| < |c.value| := by
  have hlarge : (2 ^ 97 - 1) * d ≤ 2 * (n * 10 ^ (c.scale + 1)).natAbs := by
    rw [← Nat.not_lt, natAbs_roundHalfEven_lt_iff hd, Nat.not_lt] at hfull
    exact hfull
  have hten : (n * 10 ^ (c.scale + 1)).natAbs = 10 * (n * 10 ^ c.scale).natAbs := by
    rw [pow_succ, ← mul_assoc, Int.natAbs_mul]
    exact Nat.mul_comm _ _
  -- the last digit of the bound is a six, so the rounded coefficient makes up for it
  have hfilled : 7922816251426433759354395034 ≤ c.coefficient.natAbs := by
    rw [hcoefficient]
    refine (le_natAbs_roundHalfEven hd (k := 3961408125713216879677197517) (by norm_num)).2 ?_
    omega
  have hpow : (0 : Rat) < 10 ^ (c.scale + 1) := by positivity
  have hbelow : |r.value| * 10 ^ (c.scale + 1) ≤ 2 ^ 96 - 1 := by
    have hcast : (r.coefficient.natAbs : Rat) + 1 ≤ 2 ^ 96 := by exact_mod_cast r.coefficient_lt
    calc |r.value| * 10 ^ (c.scale + 1) ≤ |r.value| * 10 ^ r.scale :=
          mul_le_mul_of_nonneg_left (pow_le_pow_right₀ (by norm_num) hr) (abs_nonneg _)
      _ = |(r.coefficient : Rat)| := abs_value_mul_pow r
      _ = (r.coefficient.natAbs : Rat) := by rw [Nat.cast_natAbs, Int.cast_abs]
      _ ≤ 2 ^ 96 - 1 := by linarith
  constructor
  · refine lt_of_mul_lt_mul_right (lt_of_le_of_lt hbelow ?_) hpow.le
    have hd' : (0 : Rat) < d := by exact_mod_cast hd
    have hcast : ((2 ^ 97 - 1) * d : Rat) ≤ 2 * (|(n : Rat)| * 10 ^ (c.scale + 1)) := by
      have h : (((2 ^ 97 - 1) * d : Nat) : Rat) ≤ ((2 * (n * 10 ^ (c.scale + 1)).natAbs : Nat) : Rat) :=
        Nat.cast_le.2 hlarge
      rw [Int.natAbs_mul, Int.natAbs_pow] at h
      push_cast [Nat.cast_natAbs] at h
      linarith
    rw [abs_div, abs_of_pos hd', div_mul_eq_mul_div, lt_div_iff₀ hd']
    linarith
  · refine lt_of_mul_lt_mul_right (lt_of_le_of_lt hbelow ?_) hpow.le
    have hcast : (7922816251426433759354395034 : Rat) ≤ |(c.coefficient : Rat)| := by
      rw [← Int.cast_abs, ← Nat.cast_natAbs]
      exact_mod_cast hfilled
    have hsplit : |c.value| * 10 ^ (c.scale + 1) = |(c.coefficient : Rat)| * 10 := by
      rw [← abs_value_mul_pow, pow_succ, mul_assoc]
    rw [hsplit]
    linarith

/-- A quotient rounded at the largest scale that has room for it crosses no decimal. -/
theorem rounds_of_full (hd : 0 < d) (hcoefficient : c.coefficient = roundHalfEven (n * 10 ^ c.scale) d)
    (hfull : c.scale < 28 → 2 ^ 96 ≤ (roundHalfEven (n * 10 ^ (c.scale + 1)) d).natAbs) : Rounds (n / d) c := by
  have hd' : (0 : Rat) < d := by exact_mod_cast hd
  intro r
  by_cases hr : r.scale ≤ c.scale
  · -- the other decimal is an integer at the scale of the result
    obtain ⟨j, hj⟩ := Nat.exists_eq_add_of_le hr
    have hvalue : r.value = ((r.coefficient * 10 ^ j : Int) : Rat) / 10 ^ c.scale := by
      rw [value_eq_div, hj, pow_add]
      push_cast
      field_simp
    have hpow : (0 : Rat) < 10 ^ c.scale := by positivity
    rw [hvalue, value_eq_div c, hcoefficient, div_le_div_iff_of_pos_right hpow, div_le_div_iff_of_pos_right hpow,
      div_le_div_iff₀ hd' hpow, div_le_div_iff₀ hpow hd']
    constructor
    · intro h
      exact_mod_cast roundHalfEven_le hd (by exact_mod_cast h)
    · intro h
      exact_mod_cast le_roundHalfEven hd (by exact_mod_cast h)
  · obtain ⟨hquotient, hresult⟩ := abs_value_lt_of_full hd hcoefficient
      (hfull (lt_of_lt_of_le (Nat.not_le.1 hr) r.scale_le)) (Nat.not_le.1 hr)
    rcases le_or_gt 0 n with hn | hn
    · have hc : 0 ≤ c.value := by
        rw [← zero_le_iff, zero_le_iff_coefficient, hcoefficient]
        exact roundHalfEven_nonneg (by positivity) d
      have hq : (0 : Rat) ≤ n / d := div_nonneg (by exact_mod_cast hn) hd'.le
      rw [abs_of_nonneg hq] at hquotient
      rw [abs_of_nonneg hc] at hresult
      have hself := le_abs_self r.value
      exact ⟨fun h => absurd h (hself.trans_lt hquotient).not_ge, fun _ => (hself.trans_lt hresult).le⟩
    · have hc : c.value ≤ 0 := by
        have hle : roundHalfEven (n * 10 ^ c.scale) d ≤ 0 :=
          roundHalfEven_le hd (by rw [zero_mul]; exact mul_nonpos_of_nonpos_of_nonneg hn.le (by positivity))
        rw [value_eq_div, hcoefficient]
        exact div_nonpos_of_nonpos_of_nonneg (by exact_mod_cast hle) (by positivity)
      have hq : (n : Rat) / d ≤ 0 := div_nonpos_of_nonpos_of_nonneg (by exact_mod_cast hn.le) hd'.le
      rw [abs_of_nonpos hq] at hquotient
      rw [abs_of_nonpos hc] at hresult
      have hself := neg_abs_le r.value
      exact ⟨fun _ => by linarith, fun h => absurd h (by linarith)⟩

theorem rounds_of_nearestAt? {h : 28 ≤ 28} (hd : 0 < d) (hc : nearestAt? n d 28 h = some c) : Rounds (n / d) c := by
  obtain ⟨hcoefficient, -, hfull⟩ := nearestAt?_spec hc
  exact rounds_of_full hd hcoefficient hfull

/-- At a scale of its own a number is not rounded, and below it there was no room. -/
theorem rounds_of_fit? {s : Nat} (hc : fit? n s = some c) : Rounds (n / 10 ^ s) c := by
  obtain ⟨hcoefficient, hle, hfull⟩ := nearestAt?_spec hc
  by_cases hown : c.scale = s
  · refine rounds_of_value_eq ?_
    have hround := roundHalfEven_mul n (Nat.pow_pos (by norm_num) : 0 < 10 ^ s)
    rw [Int.natCast_pow] at hround
    rw [hown] at hcoefficient
    rw [value_eq_div, hown, hcoefficient]
    exact_mod_cast congrArg (fun k : Int => (k : Rat) / 10 ^ s) hround
  · have h := rounds_of_full (Nat.pow_pos (by norm_num)) hcoefficient fun hlt => hfull (by omega)
    rwa [Nat.cast_pow] at h

end Scales

/-! ## Operations -/

section Operations

variable {a b c : Decimal}

theorem rounds_of_add? (h : a.add? b = some c) : Rounds (a.value + b.value) c := by
  unfold add? at h
  split at h
  next hzero =>
    cases h
    exact rounds_of_value_eq (by rw [isZero_iff_value_eq.1 hzero, zero_add])
  next =>
    split at h
    next hzero =>
      cases h
      exact rounds_of_value_eq (by rw [isZero_iff_value_eq.1 hzero, add_zero])
    next =>
      rw [value_add_value]
      exact rounds_of_fit? h

theorem rounds_of_sub? (h : a.sub? b = some c) : Rounds (a.value - b.value) c := by
  rw [sub_eq_add_neg, ← value_neg]
  exact rounds_of_add? h

/-- The product of two values, over the power of ten of both scales. -/
theorem value_mul_value (a b : Decimal) :
    a.value * b.value = ((a.coefficient * b.coefficient : Int) : Rat) / 10 ^ (a.scale + b.scale) := by
  rw [value_eq_div, value_eq_div, div_mul_div_comm, pow_add, Int.cast_mul]

/-- A product whose digits do not lie far below the last fractional one rounds, when it has room. -/
theorem mul?_spec (hscale : a.scale + b.scale ≤ 47) (hroom : HasRoom (a.value * b.value)) :
    ∃ c, a.mul? b = some c ∧ Rounds (a.value * b.value) c := by
  unfold mul?
  split
  next hzero =>
    refine ⟨zero, rfl, rounds_of_value_eq ?_⟩
    rw [value_zero, eq_comm, mul_eq_zero]
    exact hzero.imp isZero_iff_value_eq.1 isZero_iff_value_eq.1
  next =>
    rw [if_neg (by omega)]
    rw [value_mul_value] at hroom ⊢
    obtain ⟨c, hc⟩ := Option.ne_none_iff_exists'.1 (mt fit?_eq_none_iff.1 (not_not.2 hroom))
    exact ⟨c, hc, rounds_of_fit? hc⟩

/-- Dropped zeros change no value. -/
theorem strip_value (n : Int) (s : Nat) :
    ((strip n s).1 : Rat) / 10 ^ (strip n s).2 = (n : Rat) / 10 ^ s := by
  induction s generalizing n with
  | zero => rfl
  | succ s ih =>
    rw [strip]
    split
    next hten =>
      have hn : n = n / 10 * 10 := (Int.ediv_mul_cancel (Int.dvd_of_emod_eq_zero hten)).symm
      rw [ih]
      conv_rhs => rw [hn]
      rw [pow_succ]
      push_cast
      field_simp
    next => rfl

theorem value_normalize (a : Decimal) : a.normalize.value = a.value := by
  rw [value_eq_div, value_eq_div]
  exact strip_value a.coefficient a.scale

/-- The quotient of two values as one of integers. -/
theorem value_div_value (a b : Decimal) : a.value / b.value
    = ((b.coefficient.sign * a.coefficient * 10 ^ b.scale : Int) : Rat)
      / ((b.coefficient.natAbs * 10 ^ a.scale : Nat) : Rat) := by
  have habs : ((b.coefficient.natAbs : Int) : Rat) = b.coefficient.sign * b.coefficient := by
    rw [← Int.sign_mul_self_eq_natAbs, Int.cast_mul]
  rw [Nat.cast_mul, ← Int.cast_natCast, habs, value_eq_div, value_eq_div]
  push_cast
  by_cases hb : b.coefficient = 0
  · simp [hb]
  · have hsign : (b.coefficient.sign : Rat) ≠ 0 := by exact_mod_cast mt Int.sign_eq_zero_iff_zero.1 hb
    have hb' : (b.coefficient : Rat) ≠ 0 := by exact_mod_cast hb
    field_simp

/-- A quotient rounds, when it has room. -/
theorem div?_spec (hb : ¬ b.IsZero) (hroom : HasRoom (a.value / b.value)) :
    ∃ c, a.div? b = some c ∧ Rounds (a.value / b.value) c := by
  unfold div?
  rw [if_neg hb]
  split
  next hzero =>
    refine ⟨zero, rfl, rounds_of_value_eq ?_⟩
    rw [value_zero, isZero_iff_value_eq.1 hzero, zero_div]
  next =>
    have hd : 0 < b.coefficient.natAbs * 10 ^ a.scale := Nat.mul_pos (Int.natAbs_pos.2 hb) (Nat.pow_pos (by norm_num))
    rw [value_div_value] at hroom ⊢
    obtain ⟨c, hc⟩ := Option.ne_none_iff_exists'.1 (mt (nearestAt?_eq_none_iff_not_hasRoom hd (le_refl 28)).1
      (not_not.2 hroom))
    refine ⟨c.normalize, by simp only [hc, Option.map_some], ?_⟩
    have hrounds := rounds_of_nearestAt? hd hc
    rwa [Rounds, ← value_normalize] at hrounds

/-! ## Results that are decimals -/

variable {r : Decimal}

theorem sub?_exact (hr : r.value = a.value - b.value) : ∃ c, a.sub? b = some c ∧ c.value = a.value - b.value := by
  obtain ⟨c, hc⟩ := Option.isSome_iff_exists.1 (isSome_sub?_iff.2 (hr ▸ hasRoom_value r))
  exact ⟨c, hc, (rounds_of_sub? hc).value_eq hr⟩

theorem mul?_exact (hscale : a.scale + b.scale ≤ 47) (hr : r.value = a.value * b.value) :
    ∃ c, a.mul? b = some c ∧ c.value = a.value * b.value := by
  obtain ⟨c, hc, hrounds⟩ := mul?_spec hscale (hr ▸ hasRoom_value r)
  exact ⟨c, hc, hrounds.value_eq hr⟩

theorem div?_exact (hb : ¬ b.IsZero) (hr : r.value = a.value / b.value) :
    ∃ c, a.div? b = some c ∧ c.value = a.value / b.value := by
  obtain ⟨c, hc, hrounds⟩ := div?_spec hb (hr ▸ hasRoom_value r)
  exact ⟨c, hc, hrounds.value_eq hr⟩

end Operations

end OrderKeeper.Decimal
