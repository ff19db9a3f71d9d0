import Mathlib.Data.List.GetD
import Mathlib.Data.List.TakeWhile
import OrderKeeper.Time.Text

/-!
# A written timestamp reads back

The date of a day number exists (`Date.isValid_ofDayNumber`), so what is written of a timestamp names a date and a
time that the reader accepts. Each number is written with exactly as many digits as are read (`number?_padded`), and
the fraction in as few groups of three as lose nothing (`fraction?_fractionChars`). A timestamp in a year of four
digits therefore reads back to the nanosecond, in a leap second as well (`ofText?_toText`).
-/

namespace OrderKeeper

/-! ## Dates that exist -/

namespace Date

/-- A split of a day that the months have room for names one of them and a day of it. -/
theorem splitMonth_lt {ls : List Nat} {d : Nat} (hd : d < monthStart ls ls.length) :
    (splitMonth ls d).1 < ls.length ∧ (splitMonth ls d).2 < ls.getD (splitMonth ls d).1 0 := by
  fun_induction splitMonth ls d with
  | case1 d => simp [monthStart] at hd
  | case2 l d => simpa [monthStart] using hd
  | case3 l ls d _ h => simp [h]
  | case4 l ls d _ h m r hs ih =>
    rw [List.length_cons, monthStart] at hd
    have hrest := ih (by omega)
    rw [hs] at hrest
    simpa using hrest

/-- The months of a year together are as long as the year. -/
theorem monthStart_monthLengths (y : Int) :
    (monthStart (monthLengths y) (monthLengths y).length : Int) = daysBefore (y + 1) - daysBefore y := by
  simp only [monthLengths, isLeap, daysBefore, List.length_cons, List.length_nil, monthStart, decide_eq_true_eq]
  split <;> omega

theorem le_of_mem_monthLengths {y : Int} {l : Nat} (hl : l ∈ monthLengths y) : l ≤ 31 := by
  simp only [monthLengths, List.mem_cons, List.not_mem_nil, or_false] at hl
  split at hl <;> omega

/-- The date of a day number exists. -/
theorem isValid_ofDayNumber (n : Int) : (ofDayNumber n).isValid = true := by
  have hle := daysBefore_yearOf_le (n + epoch)
  have hlt := lt_daysBefore_yearOf_add_one (n + epoch)
  have hyear := monthStart_monthLengths (yearOf (n + epoch))
  have hfits : (n + epoch - daysBefore (yearOf (n + epoch))).toNat
      < monthStart (monthLengths (yearOf (n + epoch))) (monthLengths (yearOf (n + epoch))).length := by
    omega
  obtain ⟨hmonth, hday⟩ := splitMonth_lt hfits
  have htwelve : (monthLengths (yearOf (n + epoch))).length = 12 := rfl
  simp only [isValid, Bool.and_eq_true, decide_eq_true_eq]
  simp only [ofDayNumber, Nat.add_sub_cancel]
  omega

/-- The month and the day of a date that exists have two digits at most. -/
theorem lt_of_isValid {a : Date} (ha : a.isValid = true) : a.month < 100 ∧ a.day < 100 := by
  simp only [isValid, Bool.and_eq_true, decide_eq_true_eq] at ha
  obtain ⟨⟨⟨hfirst, hlast⟩, -⟩, hday⟩ := ha
  have hlength : a.month - 1 < (monthLengths a.year).length := by
    change a.month - 1 < 12
    omega
  have hmem := le_of_mem_monthLengths (List.getElem_mem hlength)
  rw [List.getD_eq_getElem _ _ hlength] at hday
  omega

end Date

/-! ## Numbers and marks -/

namespace Text

theorem isBlank_digit {c : Char} (hc : isDigit c = true) : isBlank c = false := by
  rw [isDigit_iff] at hc
  simp only [isBlank, Bool.or_eq_false_iff, Bool.and_eq_false_iff, decide_eq_false_iff_not]
  omega

theorem dropBlank_cons {c : Char} {cs : List Char} (hc : isBlank c = false) : dropBlank (c :: cs) = c :: cs := by
  rw [dropBlank, List.dropWhile_cons, hc]
  rfl

/-- No blank stands in front of a written number. -/
theorem dropBlank_padded {w n : Nat} (hw : 0 < w) (rest : List Char) :
    ∃ d ds, isDigit d = true ∧ padded w n ++ rest = d :: ds ∧ dropBlank (padded w n ++ rest) = d :: ds := by
  have hall := all_isDigit_padded w n
  have hlen := le_length_padded w n
  obtain ⟨d, ds, heq⟩ := List.exists_cons_of_length_pos (Nat.lt_of_lt_of_le hw hlen)
  rw [heq, List.all_cons, Bool.and_eq_true] at hall
  rw [heq]
  exact ⟨d, ds ++ rest, hall.1, rfl, dropBlank_cons (isBlank_digit hall.1)⟩

end Text

namespace Timestamp

open OrderKeeper.Text

variable {w n : Nat}

/-- A number written to a width is read from it. -/
theorem number?_padded (hw : 0 < w) (hn : n < 10 ^ w) (rest : List Char) :
    number? w (padded w n ++ rest) = some (n, rest) := by
  have hlen := length_padded hw hn
  have hall := List.all_eq_true.mp (all_isDigit_padded w n)
  have hdigits : (padded w n).takeWhile isDigit = padded w n := List.takeWhile_eq_self_iff.mpr hall
  obtain ⟨d, ds, -, heq, hdrop⟩ := dropBlank_padded (n := n) hw rest
  rw [number?, hdrop, ← heq, List.take_append_of_le_length (by omega), List.take_of_length_le (by omega), hdigits]
  simp [isEmpty_padded hw, numeral_padded]

theorem year?_padded (hn : n < 10000) (rest : List Char) : year? (padded 4 n ++ rest) = some ((n : Int), rest) := by
  have hnumber := number?_padded (by decide) (show n < 10 ^ 4 from hn) rest
  obtain ⟨d, ds, hd, heq, hdrop⟩ := dropBlank_padded (w := 4) (n := n) (by decide) rest
  rw [heq] at hnumber
  unfold year?
  rw [hdrop]
  split
  · next h => exact absurd (List.cons.inj h).1 (ne_of_isDigit hd (by decide))
  · next h => exact absurd (List.cons.inj h).1 (ne_of_isDigit hd (by decide))
  · rw [hnumber]
    rfl

theorem mark?_self {c : Char} (hc : isBlank c = false) (rest : List Char) : mark? c (c :: rest) = some rest := by
  rw [mark?, dropBlank_cons hc]
  simp

/-! ## Fractions -/

/-- A group of at most nine digits is a fraction of a second. -/
theorem fraction?_padded (hw : 0 < w) (hnine : w ≤ 9) (hn : n < 10 ^ w) :
    fraction? ('.' :: padded w n ++ ['Z']) = some (n * 10 ^ (9 - w), ['Z']) := by
  have hlen := length_padded hw hn
  have hall := List.all_eq_true.mp (all_isDigit_padded w n)
  have htake : (padded w n ++ ['Z']).takeWhile isDigit = padded w n := by
    rw [List.takeWhile_append_of_pos hall]
    exact List.append_nil _
  have hdrop : (padded w n ++ ['Z']).dropWhile isDigit = ['Z'] := List.dropWhile_append_of_pos hall
  rw [List.cons_append, fraction?, htake, hdrop, List.take_of_length_le (by omega), hlen, numeral_padded]
  simp [isEmpty_padded hw]

/-- A written fraction reads back, in whichever groups of three it is written. -/
theorem fraction?_fractionChars (hn : n < 1000000000) : fraction? (fractionChars n ++ ['Z']) = some (n, ['Z']) := by
  unfold fractionChars
  split
  · next hzero =>
    rw [hzero]
    rfl
  · split
    · rw [fraction?_padded (by decide) (by decide) (by omega)]
      congr 2
      omega
    · split
      · rw [fraction?_padded (by decide) (by decide) (by omega)]
        congr 2
        omega
      · rw [fraction?_padded (by decide) (by decide) (by omega)]
        congr 2
        omega

/-! ## The whole text -/

/-- A timestamp in a year of four digits, whose nanoseconds go beyond a second only at the end of a minute, where the
leap seconds are. -/
structure Ordinary (t : Timestamp) : Prop where
  year_nonneg : 0 ≤ (Date.ofDayNumber (t.seconds / 86400)).year
  year_le : (Date.ofDayNumber (t.seconds / 86400)).year ≤ 9999
  nanos_lt : t.nanos < 1000000000 ∨ (t.nanos < 2000000000 ∧ t.seconds % 60 = 59)

variable {t : Timestamp}

/-- The calendar reaches beyond the years of four digits. -/
theorem Ordinary.inCalendar (ht : t.Ordinary) : inCalendar t.seconds := by
  have hle := Date.daysBefore_yearOf_le (t.seconds / 86400 + Date.epoch)
  have hlt := Date.lt_daysBefore_yearOf_add_one (t.seconds / 86400 + Date.epoch)
  have hfirst : 0 ≤ Date.yearOf (t.seconds / 86400 + Date.epoch) := ht.year_nonneg
  have hlast : Date.yearOf (t.seconds / 86400 + Date.epoch) ≤ 9999 := ht.year_le
  simp only [Date.daysBefore, Date.epoch] at hle hlt hfirst hlast
  rw [Timestamp.inCalendar, firstSecond_eq, lastSecond_eq]
  omega

/-- The time of day that is written, on the date that is written, is the timestamp. -/
theorem ofLocal?_self (ht : t.Ordinary) :
    let s := (t.seconds % 86400).toNat
    ofLocal? (Date.ofDayNumber (t.seconds / 86400)) (s / 3600) (s / 60 % 60) (s % 60 + t.nanos / 1000000000)
      (t.nanos % 1000000000) 0 = some t := by
  intro s
  have hs : (s : Int) = t.seconds % 86400 := by
    change ((t.seconds % 86400).toNat : Int) = _
    omega
  have hnanos := ht.nanos_lt
  have hday : s < 86400 := by omega
  have hsecond : s % 60 + t.nanos / 1000000000 ≤ 60 := by omega
  have hleap : (s % 60 + t.nanos / 1000000000) / 60 = t.nanos / 1000000000 := by omega
  have hseconds : (Date.ofDayNumber (t.seconds / 86400)).dayNumber * 86400 + (s / 3600 : Nat) * 3600
      + (s / 60 % 60 : Nat) * 60 + (s % 60 + t.nanos / 1000000000 - t.nanos / 1000000000 : Nat) = t.seconds := by
    rw [Date.dayNumber_ofDayNumber]
    omega
  rw [ofLocal?, if_pos ⟨Date.isValid_ofDayNumber _, by omega, by omega, hsecond⟩, hleap]
  simp only [hseconds, Int.sub_zero]
  rw [if_pos ⟨ht.inCalendar, ht.inCalendar⟩]
  congr 2
  omega

theorem ofChars?_toChars (ht : t.Ordinary) : ofChars? t.toChars = some t := by
  obtain ⟨hmonth, hday⟩ := Date.lt_of_isValid (Date.isValid_ofDayNumber (t.seconds / 86400))
  have hyear : yearChars (Date.ofDayNumber (t.seconds / 86400)).year
      = padded 4 (Date.ofDayNumber (t.seconds / 86400)).year.toNat := if_pos ⟨ht.year_nonneg, ht.year_le⟩
  have hnonneg := ht.year_nonneg
  have hle := ht.year_le
  have hlocal := ofLocal?_self ht
  have hnanos := ht.nanos_lt
  have hmod : (t.seconds % 86400).toNat < 86400 := by omega
  have hsixty : (t.seconds % 86400).toNat % 60 + t.nanos / 1000000000 < 10 ^ 2 := by omega
  have hhour : (t.seconds % 86400).toNat / 3600 < 10 ^ 2 := by omega
  have hminute : (t.seconds % 86400).toNat / 60 % 60 < 10 ^ 2 := by omega
  simp only [toChars, hyear, List.append_assoc, List.cons_append, ofChars?, Option.bind_eq_bind]
  -- the date
  rw [year?_padded (by omega), Option.bind_some, mark?_self (by decide), Option.bind_some,
    number?_padded (by decide) hmonth, Option.bind_some, mark?_self (by decide), Option.bind_some,
    number?_padded (by decide) hday, Option.bind_some]
  -- the time of day
  rw [separator?, Option.bind_some, number?_padded (by decide) hhour, Option.bind_some, mark?_self (by decide),
    Option.bind_some, number?_padded (by decide) hminute, Option.bind_some, mark?_self (by decide), Option.bind_some,
    number?_padded (by decide) hsixty, Option.bind_some, fraction?_fractionChars (by omega), Option.bind_some]
  have hoffset : offset? ['Z'] = some (0, []) := rfl
  rw [hoffset, Option.bind_some, Int.toNat_of_nonneg hnonneg]
  exact hlocal

/-- A written timestamp reads back, to the nanosecond. -/
theorem ofText?_toText (ht : t.Ordinary) : ofText? t.toText = some t := by
  rw [ofText?, toText, String.toList_ofList, ofChars?_toChars ht]

end Timestamp

end OrderKeeper
