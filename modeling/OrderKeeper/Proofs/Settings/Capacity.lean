import Mathlib.Algebra.Order.Floor.Semiring
import Mathlib.Data.Rat.Floor
import OrderKeeper.Proofs.Decimal.Rounding
import OrderKeeper.Settings.Basic

/-!
# Capacities less the margin

The check of the settings lets a margin through just when it is at least zero and less than a hundred
(`acceptedMargin_iff`). If such a margin has at most 16 fractional digits, nothing is rounded on the way to the
capacity: the part that is kept has at most 18 fractional digits, and its product with a capacity has room for them
(`scaled?_eq`). So what is left of a capacity is the true floor, but at least one (`capacityOf_eq_kept`).
-/

namespace OrderKeeper

namespace Decimal

/-- A number with at most so many fractional digits. -/
def HasPlaces (places : Nat) (a : Decimal) : Prop := ∃ n : Int, a.value * 10 ^ places = n

/-- A decimal has no more fractional digits than its scale says. -/
theorem hasPlaces_of_scale_le {places : Nat} {a : Decimal} (h : a.scale ≤ places) : a.HasPlaces places := by
  obtain ⟨j, rfl⟩ := Nat.exists_eq_add_of_le h
  refine ⟨a.coefficient * 10 ^ j, ?_⟩
  rw [value_eq_div, pow_add]
  push_cast
  field_simp

@[simp] theorem value_hundred : hundred.value = 100 := by
  rw [value_eq_div]
  norm_num [hundred]

@[simp] theorem value_ofNat64 (n : UInt64) : (ofNat64 n).value = n.toNat := by
  rw [value_eq_div]
  simp [ofNat64]

theorem floorNat_eq (a : Decimal) : a.floorNat = ⌊a.value⌋₊ := by
  rw [floorNat, ← Int.floor_toNat, value_eq_div]
  congr 1
  have h := Rat.floor_intCast_div_natCast a.coefficient (10 ^ a.scale)
  push_cast at h
  exact h.symm

theorem larger_zero {a : Decimal} (h : 0 ≤ a.value) : a.larger zero = a :=
  if_neg (not_lt.2 (zero_le_iff.2 h))

end Decimal

/-! ## Margins -/

/-- A margin of some settings that pass the check. -/
def AcceptedMargin (margin : Decimal) : Prop := ∃ s : Settings, s.problem? = none ∧ s.limits.marginPct = margin

theorem LimitSettings.margin_of_problem? {s : LimitSettings} (h : s.problem? = none) :
    Decimal.zero ≤ s.marginPct ∧ s.marginPct < Decimal.hundred := by
  simp only [problem?, Option.or_eq_none_iff] at h
  obtain ⟨-, -, hmargin⟩ := h
  split at hmargin
  · cases hmargin
  next hin => exact ⟨Decimal.not_lt.1 (not_or.1 hin).1, Decimal.not_le.1 (not_or.1 hin).2⟩

theorem Settings.limits_of_problem? {s : Settings} (h : s.problem? = none) : s.limits.problem? = none :=
  (Option.or_eq_none_iff.1 h).1

theorem acceptedMargin_iff {margin : Decimal} :
    AcceptedMargin margin ↔ Decimal.zero ≤ margin ∧ margin < Decimal.hundred := by
  constructor
  · rintro ⟨s, hs, rfl⟩
    exact LimitSettings.margin_of_problem? (Settings.limits_of_problem? hs)
  · rintro ⟨hnonneg, hlt⟩
    refine ⟨{ limits := { marginPct := margin } }, ?_, rfl⟩
    have hin : ¬ (margin < Decimal.zero ∨ Decimal.hundred ≤ margin) :=
      not_or.2 ⟨Decimal.not_lt.2 hnonneg, Decimal.not_le.2 hlt⟩
    have hlimits : ({ marginPct := margin } : LimitSettings).problem? = none := by
      simp only [LimitSettings.problem?, if_neg hin]
      rfl
    have hrest : (({} : Settings).stream.problem?.or
        (({} : Settings).tracking.problem?.or ({} : Settings).polling.problem?)) = none := by decide +kernel
    exact Option.or_eq_none_iff.2 ⟨hlimits, hrest⟩

/-! ## The true floor -/

/-- What is left of a capacity when a percentage is taken off, in whole requests, but at least one. -/
def kept (margin : Rat) (capacity : Nat) : Nat := max 1 ⌊(capacity : Rat) * (100 - margin) / 100⌋₊

section Kept

variable {margin margin' : Rat} {capacity capacity' : Nat}

theorem one_le_kept (margin : Rat) (capacity : Nat) : 1 ≤ kept margin capacity := le_max_left _ _

theorem kept_zero (h : 1 ≤ capacity) : kept 0 capacity = capacity := by
  have hall : (capacity : Rat) * (100 - 0) / 100 = capacity := by ring
  rw [kept, hall, Nat.floor_natCast, max_eq_right h]

/-- Nothing grows with the margin. -/
theorem kept_anti (h : margin ≤ margin') (capacity : Nat) : kept margin' capacity ≤ kept margin capacity := by
  refine max_le_max_left 1 (Nat.floor_mono ?_)
  have hcapacity : (0 : Rat) ≤ capacity := Nat.cast_nonneg _
  have hrest : (capacity : Rat) * (100 - margin') ≤ capacity * (100 - margin) :=
    mul_le_mul_of_nonneg_left (by linarith) hcapacity
  linarith

/-- Nothing shrinks when the capacity grows. -/
theorem kept_mono (hmargin : margin ≤ 100) (h : capacity ≤ capacity') : kept margin capacity ≤ kept margin capacity' := by
  refine max_le_max_left 1 (Nat.floor_mono ?_)
  have hrest : (capacity : Rat) * (100 - margin) ≤ capacity' * (100 - margin) :=
    mul_le_mul_of_nonneg_right (by exact_mod_cast h) (by linarith)
  linarith

theorem kept_le (hmargin : 0 ≤ margin) (h : 1 ≤ capacity) : kept margin capacity ≤ capacity :=
  (kept_anti hmargin capacity).trans (kept_zero h).le

end Kept

/-! ## The capacity of a pool -/

namespace LimitSettings

open Decimal (zero hundred)

variable {s : LimitSettings} {p : PoolSettings}

/-- A margin of at most 16 fractional digits is a number of parts of a hundred. -/
theorem exists_parts {margin : Decimal} (hnonneg : 0 ≤ margin.value) (hlt : margin.value < 100)
    (hplaces : margin.HasPlaces 16) :
    ∃ n : Int, 0 ≤ n ∧ n ≤ 10 ^ 18 ∧ 100 - margin.value = (n : Rat) / 10 ^ 16 := by
  obtain ⟨n, hn⟩ := hplaces
  have hmargin : margin.value = n / 10 ^ 16 := by
    rw [← hn]
    field_simp
  rw [hmargin] at hnonneg hlt
  have hn0 : (0 : Rat) ≤ n := by linarith
  have hn1 : (n : Rat) ≤ 10 ^ 18 := by linarith
  refine ⟨10 ^ 18 - n, sub_nonneg.2 (by exact_mod_cast hn1), ?_, ?_⟩
  · have : 0 ≤ n := by exact_mod_cast hn0
    omega
  · rw [hmargin]
    push_cast
    ring

/-- With at most 16 fractional digits in the margin, the scaled capacity is the true one. -/
theorem scaled?_eq {margin : Decimal} (hnonneg : 0 ≤ margin.value) (hlt : margin.value < 100)
    (hplaces : margin.HasPlaces 16) (capacity : UInt32) :
    scaled? margin capacity = some ⌊(capacity.toNat : Rat) * (100 - margin.value) / 100⌋₊ := by
  obtain ⟨n, hn0, hn1, hleft⟩ := exists_parts hnonneg hlt hplaces
  have hword := capacity.toNat_lt
  have hshort : n.natAbs < 2 ^ 96 := by omega
  have hlong : (capacity.toNat * n : Int).natAbs < 2 ^ 96 := by
    rw [Int.natAbs_mul, Int.natAbs_natCast]
    calc capacity.toNat * n.natAbs ≤ 2 ^ 32 * 10 ^ 18 := Nat.mul_le_mul hword.le (by omega)
      _ < 2 ^ 96 := by norm_num
  -- each result on the way is a decimal: the parts of a hundred, those of one, and those of the capacity
  obtain ⟨rest, hrest, hrestValue⟩ := Decimal.sub?_exact (a := hundred) (b := margin) (r := ⟨n, 16, hshort, by norm_num⟩)
    (by rw [Decimal.value_eq_div, Decimal.value_hundred, hleft])
  rw [Decimal.value_hundred] at hrestValue
  obtain ⟨keep, hkeep, hkeepValue⟩ := Decimal.div?_exact (a := rest) (b := hundred) (r := ⟨n, 18, hshort, by norm_num⟩)
    (by decide) (by rw [Decimal.value_eq_div, Decimal.value_hundred, hrestValue, hleft]; ring)
  rw [hrestValue, Decimal.value_hundred] at hkeepValue
  have hwhole : (Decimal.ofNat64 capacity.toUInt64).value = capacity.toNat := by
    rw [Decimal.value_ofNat64, UInt32.toNat_toUInt64]
  obtain ⟨product, hproduct, hproductValue⟩ := Decimal.mul?_exact (a := .ofNat64 capacity.toUInt64) (b := keep)
    (r := ⟨capacity.toNat * n, 18, hlong, by norm_num⟩)
    (by have := keep.scale_le; simp only [Decimal.ofNat64]; omega)
    (by rw [Decimal.value_eq_div, hwhole, hkeepValue, hleft]; push_cast; ring)
  rw [hwhole, hkeepValue, ← mul_div_assoc] at hproductValue
  have hlarger : rest.larger zero = rest := Decimal.larger_zero (by rw [hrestValue]; linarith)
  simp only [scaled?, Option.bind_eq_bind, hrest, Option.bind_some, hlarger, hkeep, hproduct, Decimal.floorNat_eq,
    hproductValue]
  rfl

/-- What is left of a capacity is the true floor. -/
theorem capacityOf_eq_kept (hmargin : AcceptedMargin s.marginPct) (hplaces : s.marginPct.HasPlaces 16)
    (hp : 1 ≤ p.capacity) : (s.capacityOf p).toNat = kept s.marginPct.value p.capacity.toNat := by
  obtain ⟨hnonneg, hlt⟩ := acceptedMargin_iff.1 hmargin
  rw [Decimal.zero_le_iff] at hnonneg
  rw [Decimal.lt_iff_value_lt, Decimal.value_hundred] at hlt
  have hone : 1 ≤ p.capacity.toNat := UInt32.le_iff_toNat_le.1 hp
  have hword := p.capacity.toNat_lt
  unfold capacityOf
  split
  next hzero =>
    have hnone : s.marginPct.value = 0 := by
      rw [Decimal.le_iff_value_le, Decimal.value_zero] at hzero
      exact le_antisymm hzero hnonneg
    rw [hnone, kept_zero hone]
  next =>
    have hle := kept_le hnonneg hone
    rw [kept] at hle ⊢
    rw [scaled?_eq hnonneg hlt hplaces]
    simp only [Option.getD_some]
    rw [if_pos (by omega), max_comm, min_eq_left hle, UInt32.toNat_ofNat_of_lt' (hle.trans_lt hword)]

/-- **What is left of a capacity.** For a margin that passes the check and has at most 16 fractional digits, it is the
floor of the true part, or one; so it lies between one and the capacity, does not grow with the margin, and does not
shrink when the capacity grows. -/
theorem capacityOf_exact (s : LimitSettings) (p : PoolSettings) (hmargin : AcceptedMargin s.marginPct)
    (hplaces : s.marginPct.HasPlaces 16) (hp : 1 ≤ p.capacity) :
    (s.capacityOf p).toNat = max 1 ⌊(p.capacity.toNat : Rat) * (100 - s.marginPct.value) / 100⌋₊
    ∧ 1 ≤ s.capacityOf p ∧ s.capacityOf p ≤ p.capacity
    ∧ (∀ s' : LimitSettings, AcceptedMargin s'.marginPct → s'.marginPct.HasPlaces 16 → s.marginPct ≤ s'.marginPct →
      s'.capacityOf p ≤ s.capacityOf p)
    ∧ ∀ p' : PoolSettings, p.capacity ≤ p'.capacity → s.capacityOf p ≤ s.capacityOf p' := by
  have hvalue := capacityOf_eq_kept hmargin hplaces hp
  have hone : 1 ≤ p.capacity.toNat := UInt32.le_iff_toNat_le.1 hp
  obtain ⟨hnonneg, hlt⟩ := acceptedMargin_iff.1 hmargin
  rw [Decimal.zero_le_iff] at hnonneg
  rw [Decimal.lt_iff_value_lt, Decimal.value_hundred] at hlt
  refine ⟨hvalue, ?_, ?_, fun s' hmargin' hplaces' hle => ?_, fun p' hle => ?_⟩
  · rw [UInt32.le_iff_toNat_le, hvalue]
    exact one_le_kept _ _
  · rw [UInt32.le_iff_toNat_le, hvalue]
    exact kept_le hnonneg hone
  · rw [UInt32.le_iff_toNat_le, hvalue, capacityOf_eq_kept hmargin' hplaces' hp]
    exact kept_anti (Decimal.le_iff_value_le.1 hle) _
  · rw [UInt32.le_iff_toNat_le, hvalue, capacityOf_eq_kept hmargin hplaces (UInt32.le_trans hp hle)]
    exact kept_mono hlt.le (UInt32.le_iff_toNat_le.1 hle)

/-- The largest capacity less a very small margin. -/
def trialScaling : LimitSettings where
  marginPct := ⟨3, 16, by decide, by decide⟩
  pools := [⟨"weight", 4294967295, 60000, .sliding⟩]

theorem capacityOf_trialScaling : AcceptedMargin trialScaling.marginPct ∧ trialScaling.marginPct.HasPlaces 16
    ∧ ∃ p ∈ trialScaling.pools, 1 ≤ p.capacity ∧ (trialScaling.capacityOf p).toNat
        = max 1 ⌊(p.capacity.toNat : Rat) * (100 - trialScaling.marginPct.value) / 100⌋₊
      ∧ trialScaling.capacityOf p = 4294967294 := by
  have hmargin : AcceptedMargin trialScaling.marginPct := acceptedMargin_iff.2 (by decide)
  have hplaces : trialScaling.marginPct.HasPlaces 16 := Decimal.hasPlaces_of_scale_le (le_refl 16)
  refine ⟨hmargin, hplaces, _, List.mem_singleton_self _, by decide, ?_, by decide +kernel⟩
  exact (capacityOf_exact trialScaling _ hmargin hplaces (by decide)).1

end LimitSettings

end OrderKeeper
