import OrderKeeper.Power

/-!
# Decimal digits

`digits n` is the positional text of `n` without leading zeros, `padded w n` the same with zeros in front up to `w`
characters, and `numeral` is the value of a digit string. `numeral_digits` and `numeral_padded` say that a written
number reads back.
-/

namespace OrderKeeper.Text

/-- An ASCII digit. -/
def isDigit (c : Char) : Bool := '0' ≤ c && c ≤ '9'

/-- The digit character of a number below ten. -/
def digit (d : Nat) : Char := Char.ofNat (48 + d % 10)

/-- The number that a digit character stands for. -/
def digitValue (c : Char) : Nat := c.toNat - 48

/-- The digits of `n`, most significant first; `0` has one digit. -/
def digits (n : Nat) : List Char :=
  if n < 10 then [digit n] else digits (n / 10) ++ [digit n]
termination_by n

/-- The digits of `n`, with zeros in front up to `width` characters. -/
def padded (width n : Nat) : List Char :=
  let ds := digits n
  List.replicate (width - ds.length) '0' ++ ds

/-- The value of a digit string. -/
def numeral (cs : List Char) : Nat := cs.foldl (fun v c => 10 * v + digitValue c) 0

/-- The text of a natural number. -/
def ofNat (n : Nat) : String := String.ofList (digits n)

/-- The text of an integer; a negative one has a minus sign. -/
def ofInt : Int → String
  | .ofNat n => ofNat n
  | .negSucc n => "-" ++ ofNat (n + 1)

/-- The value of a text of one or more digits and nothing else. -/
def nat? (cs : List Char) : Option Nat :=
  if cs ≠ [] ∧ cs.all isDigit then some (numeral cs) else none

theorem isDigit_digit (d : Nat) : isDigit (digit d) = true := by
  have h : ∀ k : Fin 10, isDigit (Char.ofNat (48 + k)) = true := by decide
  exact h ⟨d % 10, Nat.mod_lt _ (by omega)⟩

theorem isDigit_iff {c : Char} : isDigit c = true ↔ 48 ≤ c.toNat ∧ c.toNat ≤ 57 := by
  rw [isDigit, Bool.and_eq_true, decide_eq_true_eq, decide_eq_true_eq]
  rfl

theorem ne_of_isDigit {c x : Char} (hc : isDigit c = true) (hx : isDigit x = false) : c ≠ x := by
  rintro rfl
  exact Bool.false_ne_true (hx.symm.trans hc)

theorem digitValue_digit (d : Nat) : digitValue (digit d) = d % 10 := by
  have h : ∀ k : Fin 10, digitValue (Char.ofNat (48 + k)) = k := by decide
  exact h ⟨d % 10, Nat.mod_lt _ (by omega)⟩

theorem numeral_append (cs : List Char) (c : Char) : numeral (cs ++ [c]) = 10 * numeral cs + digitValue c := by
  simp [numeral, List.foldl_append]

/-- A written number reads back. -/
theorem numeral_digits (n : Nat) : numeral (digits n) = n := by
  induction n using Nat.strongRecOn with
  | ind n ih =>
    rw [digits]
    split
    · simp [numeral, digitValue_digit]; omega
    · rw [numeral_append, ih (n / 10) (by omega), digitValue_digit]; omega

theorem numeral_replicate_zero (k : Nat) (cs : List Char) :
    numeral (List.replicate k '0' ++ cs) = numeral cs := by
  induction k with
  | zero => rfl
  | succ k ih => simpa [numeral, List.replicate_succ, digitValue] using ih

theorem numeral_padded (w n : Nat) : numeral (padded w n) = n := by
  simp [padded, numeral_replicate_zero, numeral_digits]

theorem all_isDigit_digits (n : Nat) : (digits n).all isDigit = true := by
  induction n using Nat.strongRecOn with
  | ind n ih =>
    rw [digits]
    split
    · simp [isDigit_digit]
    · simp [List.all_append, ih (n / 10) (by omega), isDigit_digit]

theorem all_isDigit_padded (w n : Nat) : (padded w n).all isDigit = true := by
  rw [padded, List.all_append, all_isDigit_digits, Bool.and_true]
  simp [isDigit]

theorem le_length_padded (w n : Nat) : w ≤ (padded w n).length := by
  rw [padded, List.length_append, List.length_replicate]
  omega

theorem isEmpty_padded {w : Nat} (hw : 0 < w) (n : Nat) : (padded w n).isEmpty = false := by
  rw [List.isEmpty_eq_false_iff, ← List.length_pos_iff]
  exact Nat.lt_of_lt_of_le hw (le_length_padded w n)

theorem length_digits_le {w n : Nat} (hw : 0 < w) (hn : n < 10 ^ w) : (digits n).length ≤ w := by
  induction w generalizing n with
  | zero => omega
  | succ w ih =>
    rw [digits]
    split
    · exact hw
    · next hten =>
      rw [Nat.pow_succ] at hn
      have hpos : 0 < w := by
        rcases Nat.eq_zero_or_pos w with rfl | hpos
        · rw [Nat.pow_zero] at hn
          omega
        · exact hpos
      simpa using ih hpos (Nat.div_lt_of_lt_mul (by omega) : n / 10 < 10 ^ w)

/-- A number with room in the width is written with just that many characters. -/
theorem length_padded {w n : Nat} (hw : 0 < w) (hn : n < 10 ^ w) : (padded w n).length = w := by
  have := length_digits_le hw hn
  rw [padded, List.length_append, List.length_replicate]
  omega

end OrderKeeper.Text
