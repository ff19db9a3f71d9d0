import OrderKeeper.Decimal.Text

/-!
# A written decimal reads back

The text of a decimal is a sign, the digits of its coefficient and a point that cuts off as many of them as its scale
says. A run of digits that fits the coefficient and the scale is scanned without rounding (`scan?_digits`), so the
scan ends with the very coefficient and scale that were written (`ofText?_toText`).
-/

namespace OrderKeeper.Decimal

open OrderKeeper.Text

/-! ## Digits -/

/-- The number that digits continue. -/
def continued (start : Nat) (cs : List Char) : Nat := cs.foldl (fun v c => 10 * v + digitValue c) start

theorem le_continued (start : Nat) (cs : List Char) : start ≤ continued start cs := by
  induction cs generalizing start with
  | nil => exact Nat.le_refl start
  | cons c cs ih => exact Nat.le_trans (by omega) (ih (10 * start + digitValue c))

theorem continued_numeral (xs ys : List Char) : continued (numeral xs) ys = numeral (xs ++ ys) := by
  rw [continued, numeral, numeral, List.foldl_append]

/-- Digits that fit are scanned one after the other, each fractional one adding a place. -/
theorem scan?_digits {ds rest : List Char} {m s : Nat} {point digit : Bool} (hall : ds.all isDigit = true)
    (hfit : continued m ds < 2 ^ 96) (hplaces : s + (if point then ds.length else 1) ≤ 28) :
    scan? (ds ++ rest) ⟨m, s, point, digit⟩
      = scan? rest ⟨continued m ds, if point then s + ds.length else s, point, digit || !ds.isEmpty⟩ := by
  induction ds generalizing m s digit with
  | nil => simp [continued]
  | cons d ds ih =>
    rw [List.all_cons, Bool.and_eq_true] at hall
    have hstep : continued m (d :: ds) = continued (10 * m + digitValue d) ds := rfl
    rw [hstep] at hfit ⊢
    have hroom : Partial.hasRoom ⟨m, s, point, digit⟩ (digitValue d) = true := by
      have hm := le_continued (10 * m + digitValue d) ds
      have hs : s < 28 := by
        cases point <;> simp at hplaces <;> omega
      simp only [Partial.hasRoom, Bool.and_eq_true, decide_eq_true_eq]
      omega
    rw [List.cons_append, scan?, if_pos hall.1, if_pos hroom, Partial.push, ih hall.2 hfit]
    · cases point <;> simp [Nat.add_comm, Nat.add_left_comm]
    · cases point
      · simpa using hplaces
      · simp at hplaces ⊢
        omega

/-- The digits of a coefficient with the point before the last `scale` of them are scanned as they are. -/
theorem scan?_split {ds : List Char} {scale : Nat} (hall : ds.all isDigit = true) (hlen : scale < ds.length)
    (hfit : numeral ds < 2 ^ 96) (hscale : scale ≤ 28) :
    scan? (ds.take (ds.length - scale) ++ if scale = 0 then [] else '.' :: ds.drop (ds.length - scale)) .start
      = some (numeral ds, scale) := by
  have hsplit : ds.take (ds.length - scale) ++ ds.drop (ds.length - scale) = ds := List.take_append_drop _ _
  have hwhole : (ds.take (ds.length - scale)).isEmpty = false := by
    rw [List.isEmpty_eq_false_iff, ← List.length_pos_iff, List.length_take]
    omega
  have hplaces : (ds.drop (ds.length - scale)).length = scale := by
    rw [List.length_drop]
    omega
  generalize ds.take (ds.length - scale) = whole at *
  generalize ds.drop (ds.length - scale) = fraction at *
  subst hsplit
  rw [List.all_append, Bool.and_eq_true] at hall
  rw [← continued_numeral] at hfit ⊢
  have hleft : ∀ rest, scan? (whole ++ rest) .start = scan? rest ⟨numeral whole, 0, false, true⟩ := by
    intro rest
    have hstart := Nat.lt_of_le_of_lt (le_continued (numeral whole) fraction) hfit
    rw [Partial.start, scan?_digits hall.1 hstart (by simp), hwhole]
    rfl
  have hright : scan? fraction ⟨numeral whole, 0, true, true⟩ = some (continued (numeral whole) fraction, scale) := by
    have h := @scan?_digits fraction [] (numeral whole) 0 true true hall.2 hfit (by simp; omega)
    rw [List.append_nil] at h
    rw [h]
    simp [scan?, hplaces]
  rw [hleft]
  split
  · next hzero =>
    have hnil : fraction = [] := List.length_eq_zero_iff.mp (by omega)
    subst hnil
    rw [hzero]
    rfl
  · rw [scan?, if_neg (by decide), if_pos ⟨rfl, Bool.false_ne_true⟩]
    exact hright

/-! ## Signs -/

/-- No digit is a sign. -/
theorem splitSign_digit {c : Char} (cs : List Char) (hc : isDigit c = true) :
    splitSign (c :: cs) = (false, c :: cs) := by
  unfold splitSign
  split
  · next heq => exact absurd (List.cons.inj heq).1 (ne_of_isDigit hc (by decide))
  · next heq => exact absurd (List.cons.inj heq).1 (ne_of_isDigit hc (by decide))
  · rfl

/-- The sign that is written in front of digits is the one that is read. -/
theorem splitSign_sign {ds : List Char} (negative : Prop) [Decidable negative] (rest : List Char)
    (hall : ds.all isDigit = true) (hne : ds ≠ []) :
    splitSign ((if negative then ['-'] else []) ++ ds ++ rest) = (decide negative, ds ++ rest) := by
  obtain ⟨d, ds, rfl⟩ := List.exists_cons_of_ne_nil hne
  rw [List.all_cons, Bool.and_eq_true] at hall
  split
  · next h => simp [splitSign, h]
  · next h => simp [splitSign_digit _ hall.1, h]

/-- The sign, the magnitude and the scale of a decimal make it up. -/
theorem ofParts?_natAbs (a : Decimal) : ofParts? (a.coefficient < 0) a.coefficient.natAbs a.scale = some a := by
  have hsign : (if decide (a.coefficient < 0) then -(a.coefficient.natAbs : Int) else a.coefficient.natAbs)
      = a.coefficient := by
    split
    · next hneg =>
      rw [decide_eq_true_eq] at hneg
      omega
    · next hneg =>
      rw [decide_eq_true_eq] at hneg
      omega
  rw [ofParts?, dif_pos ⟨a.coefficient_lt, a.scale_le⟩]
  simp only [hsign]

/-! ## The whole text -/

theorem positional?_toChars (a : Decimal) : positional? a.toChars = some a := by
  have hall := all_isDigit_padded (a.scale + 1) a.coefficient.natAbs
  have hlen : a.scale < (padded (a.scale + 1) a.coefficient.natAbs).length := le_length_padded _ _
  have hvalue := numeral_padded (a.scale + 1) a.coefficient.natAbs
  rw [positional?, toChars]
  generalize padded (a.scale + 1) a.coefficient.natAbs = ds at *
  have hwhole : (ds.take (ds.length - a.scale)).all isDigit = true :=
    List.all_eq_true.mpr fun c hc => List.all_eq_true.mp hall c (List.mem_of_mem_take hc)
  have hne : ds.take (ds.length - a.scale) ≠ [] := by
    rw [← List.length_pos_iff, List.length_take]
    omega
  have hscan := scan?_split hall hlen (hvalue ▸ a.coefficient_lt) a.scale_le
  simp only [splitSign_sign _ _ hwhole hne, hscan, Option.bind_some, hvalue, ofParts?_natAbs]

/-- A written decimal reads back, with its scale. -/
theorem ofText?_toText (a : Decimal) : ofText? a.toText = some a := by
  rw [ofText?, toText, String.toList_ofList, positional?_toChars]

end OrderKeeper.Decimal
