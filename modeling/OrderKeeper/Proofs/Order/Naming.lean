import Mathlib.Data.List.Infix
import Mathlib.Data.List.Nodup
import Mathlib.Data.List.Perm.Subperm
import OrderKeeper.Order.Naming

/-!
# Ids that can be made

A text is cut where a number of bytes ends. What is left is the part of it with just so many bytes, or all of it
(`cut?_eq_some_iff`), and there is no such part when a character lies across the cut (`cut?_eq_none_iff`).

The drawn digits have one byte each, so only a character of our own text can lie across. As many digits are left in an
id as our text leaves bytes (`make?_of_le`), none of them when it takes all (`make?_of_ge`); and two ids are the same
just when the digits that are left of them are (`make?_eq_iff`). Ids are safe to make just for texts that leave a byte
(`safe_iff`), and then there are at least sixteen of them (`exists_fresh`).
-/

namespace OrderKeeper.OrderId

open Text.Utf8 (width encodeChar)

/-- The bytes of characters together. -/
def widths : List Char → Nat
  | [] => 0
  | c :: rest => width c + widths rest

/-- A character lies on both sides of a cut. -/
def Straddles (n : Nat) (l : List Char) : Prop :=
  ∃ before c after, l = before ++ c :: after ∧ widths before < n ∧ n < widths before + width c

/-- The digits that are drawn from. -/
def hexDigits : List Char := ['0', '1', '2', '3', '4', '5', '6', '7', '8', '9', 'a', 'b', 'c', 'd', 'e', 'f']

/-- A text of as many hexadecimal digits as are drawn. -/
structure Digits (draw : String) : Prop where
  length : draw.toList.length = drawWidth
  digits : ∀ c ∈ draw.toList, c ∈ hexDigits

/-- Digits that may be drawn: one of them is always the same, and one is one of four. -/
structure Drawn (draw : String) : Prop extends Digits draw where
  version : draw.toList[12]? = some '4'
  variant : ∃ c ∈ ['8', '9', 'a', 'b'], draw.toList[16]? = some c

/-- The number of bytes that a text leaves to the drawn digits. -/
def room (start : String) : Nat := maxBytes - bytes start

/-- Whatever is drawn, there is an id, and it is short enough; and the ids that may be drawn are not all the same. -/
structure Safe (start : String) : Prop where
  made : ∀ draw, Digits draw → ∃ id, make? start draw = some id ∧ bytes id ≤ maxBytes
  varied : ∃ draw draw', Drawn draw ∧ Drawn draw' ∧ make? start draw ≠ make? start draw'

/-! ## Bytes -/

section Widths

variable {n : Nat} {c : Char} {l l' k : List Char}

@[simp] theorem widths_nil : widths [] = 0 := rfl

@[simp] theorem widths_cons (c : Char) (l : List Char) : widths (c :: l) = width c + widths l := rfl

@[simp] theorem widths_append (l l' : List Char) : widths (l ++ l') = widths l + widths l' := by
  induction l with
  | nil => simp
  | cons c rest ih => rw [List.cons_append, widths_cons, ih, widths_cons, Nat.add_assoc]

theorem width_pos (c : Char) : 0 < width c := by
  unfold width encodeChar
  dsimp only
  split_ifs <;> exact Nat.succ_pos _

theorem width_of_ascii (h : c.toNat < 0x80) : width c = 1 := by simp [width, encodeChar, h]

theorem widths_eq_zero : widths l = 0 ↔ l = [] := by
  cases l with
  | nil => simp
  | cons c rest =>
    have := width_pos c
    simp only [widths_cons, List.cons_ne_nil, iff_false]
    omega

/-- Of two beginnings of a text, one with fewer bytes is not the longer one. -/
theorem prefix_of_widths_le (hk : k <+: l) (hl : l' <+: l) (hle : widths k ≤ widths l') : k <+: l' := by
  rcases List.prefix_or_prefix_of_prefix hk hl with h | ⟨rest, rfl⟩
  · exact h
  · rw [widths_append] at hle
    have hrest : rest = [] := widths_eq_zero.1 (by omega)
    rw [hrest, List.append_nil]

theorem bytes_eq (s : String) : bytes s = widths s.toList := by
  rw [bytes, Text.Utf8.encode]
  induction s.toList with
  | nil => rfl
  | cons c rest ih => rw [List.flatMap_cons, List.length_append, ih, widths_cons, width]

theorem bytes_append (s t : String) : bytes (s ++ t) = bytes s + bytes t := by
  rw [bytes_eq, String.toList_append, widths_append, ← bytes_eq, ← bytes_eq]

/-- Characters of one byte each. -/
theorem widths_eq_length (h : ∀ c ∈ l, width c = 1) : widths l = l.length := by
  induction l with
  | nil => rfl
  | cons c rest ih =>
    rw [widths_cons, List.length_cons, h c List.mem_cons_self, ih fun d hd => h d (List.mem_cons_of_mem c hd)]
    exact Nat.add_comm _ _

/-! ## Cuts -/

/-- What is left of a text ends where the cut is, or where the text ends before. -/
theorem cut?_eq_some_iff : cut? n l = some k ↔ k <+: l ∧ widths k = min n (widths l) := by
  induction l generalizing n k with
  | nil =>
    simp only [cut?, Option.some.injEq, List.prefix_nil, widths_nil, Nat.min_zero]
    exact ⟨fun h => ⟨h.symm, by rw [← h]; rfl⟩, fun h => h.1.symm⟩
  | cons c rest ih =>
    have hpos := width_pos c
    rw [cut?, widths_cons]
    split_ifs with hzero hfits
    · rw [hzero, Nat.zero_min, Option.some.injEq, widths_eq_zero]
      exact ⟨fun h => ⟨h ▸ List.nil_prefix, h.symm⟩, fun h => h.2.symm⟩
    · rw [Option.map_eq_some_iff]
      constructor
      · rintro ⟨k', hk', rfl⟩
        obtain ⟨hbegins, hwidths⟩ := ih.1 hk'
        rw [widths_cons, hwidths]
        exact ⟨(List.prefix_cons_inj c).2 hbegins, by omega⟩
      · rintro ⟨hbegins, hwidths⟩
        cases k with
        | nil =>
          rw [widths_nil] at hwidths
          omega
        | cons c' k' =>
          obtain ⟨rfl, htail⟩ := List.cons_prefix_cons.1 hbegins
          rw [widths_cons] at hwidths
          exact ⟨k', ih.2 ⟨htail, by omega⟩, rfl⟩
    · simp only [false_iff, not_and]
      intro hbegins hwidths
      cases k with
      | nil =>
        rw [widths_nil] at hwidths
        omega
      | cons c' k' =>
        obtain ⟨rfl, -⟩ := List.cons_prefix_cons.1 hbegins
        rw [widths_cons] at hwidths
        omega

/-- A text cannot be cut just where a character lies across. -/
theorem cut?_eq_none_iff : cut? n l = none ↔ Straddles n l := by
  induction l generalizing n with
  | nil => simp [cut?, Straddles]
  | cons c rest ih =>
    rw [cut?]
    split_ifs with hzero hfits
    · subst hzero
      simp [Straddles]
    · rw [Option.map_eq_none_iff, ih]
      constructor
      · rintro ⟨before, d, after, rfl, hbefore, hafter⟩
        exact ⟨c :: before, d, after, rfl, by rw [widths_cons]; omega, by rw [widths_cons]; omega⟩
      · rintro ⟨before, d, after, hsplit, hbefore, hafter⟩
        cases before with
        | nil =>
          cases hsplit
          rw [widths_nil] at hafter
          omega
        | cons c' before =>
          cases hsplit
          rw [widths_cons] at hbefore hafter
          exact ⟨before, d, after, rfl, by omega, by omega⟩
    · simp only [true_iff]
      exact ⟨[], c, rest, rfl, by rw [widths_nil]; omega, by rw [widths_nil]; omega⟩

/-- A cut inside a text does not look at what follows the text. -/
theorem cut?_append_of_le (h : n ≤ widths l) (l' : List Char) : cut? n (l ++ l') = cut? n l := by
  ext k
  rw [cut?_eq_some_iff, cut?_eq_some_iff, widths_append, min_eq_left h, min_eq_left (by omega)]
  refine and_congr_left fun hwidths => ⟨fun hk => ?_, fun hk => hk.trans (List.prefix_append l l')⟩
  exact prefix_of_widths_le hk (List.prefix_append l l') (by omega)

end Widths

/-! ## Ids -/

section Ids

variable {start draw draw' id : String}

theorem Digits.width_eq (h : Digits draw) : ∀ c ∈ draw.toList, width c = 1 := by
  have hascii : ∀ c ∈ hexDigits, c.toNat < 0x80 := by simp [hexDigits]
  exact fun c hc => width_of_ascii (hascii c (h.digits c hc))

theorem Digits.bytes_eq (h : Digits draw) : bytes draw = drawWidth := by
  rw [OrderId.bytes_eq, widths_eq_length h.width_eq, h.length]

/-- An id is the beginning of our text and the drawn digits that ends where the cut is, or is all of it. -/
theorem make?_eq_some_iff : make? start draw = some id
    ↔ id.toList <+: (start ++ draw).toList ∧ bytes id = min maxBytes (bytes start + bytes draw) := by
  rw [make?, Option.map_eq_some_iff, ← bytes_append, OrderId.bytes_eq, OrderId.bytes_eq, ← cut?_eq_some_iff]
  constructor
  · rintro ⟨l, hl, rfl⟩
    rwa [String.toList_ofList]
  · exact fun h => ⟨_, h, String.ofList_toList⟩

theorem bytes_le_of_make? (h : make? start draw = some id) : bytes id ≤ maxBytes := by
  rw [(make?_eq_some_iff.1 h).2]
  exact min_le_left _ _

/-- A text of ours that is not too long goes on with as many of the digits as there is room for. -/
theorem make?_of_le (h : Digits draw) (hle : bytes start ≤ maxBytes) :
    make? start draw = some (start ++ String.ofList (draw.toList.take (room start))) := by
  have htaken : widths (draw.toList.take (room start)) = min (room start) drawWidth := by
    rw [widths_eq_length fun c hc => h.width_eq c (List.mem_of_mem_take hc), List.length_take, h.length]
  rw [make?_eq_some_iff, String.toList_append, String.toList_append, String.toList_ofList, List.prefix_append_right_inj,
    bytes_append, OrderId.bytes_eq (String.ofList _), String.toList_ofList, htaken, h.bytes_eq, room]
  exact ⟨List.take_prefix _ _, by omega⟩

/-- Nothing of the digits is left behind a text that takes all bytes. -/
theorem make?_of_ge (hge : maxBytes ≤ bytes start) (draw draw' : String) : make? start draw = make? start draw' := by
  rw [OrderId.bytes_eq] at hge
  rw [make?, make?, String.toList_append, String.toList_append, cut?_append_of_le hge, cut?_append_of_le hge]

/-- There is no id just when a character of our text lies across the cut. -/
theorem make?_eq_none_iff (h : Digits draw) : make? start draw = none ↔ Straddles maxBytes start.toList := by
  rcases Nat.lt_or_ge (bytes start) maxBytes with hlt | hge
  · rw [make?_of_le h hlt.le]
    simp only [reduceCtorEq, false_iff]
    rintro ⟨before, c, after, hsplit, -, hacross⟩
    rw [OrderId.bytes_eq, hsplit, widths_append, widths_cons] at hlt
    omega
  · rw [OrderId.bytes_eq] at hge
    rw [make?, Option.map_eq_none_iff, String.toList_append, cut?_append_of_le hge, cut?_eq_none_iff]

/-- Ids are the same just when the digits that there is room for are. -/
theorem make?_eq_iff (h : Digits draw) (h' : Digits draw') :
    make? start draw = make? start draw' ↔ draw.toList.take (room start) = draw'.toList.take (room start) := by
  rcases Nat.lt_or_ge (bytes start) maxBytes with hlt | hge
  · rw [make?_of_le h hlt.le, make?_of_le h' hlt.le, Option.some.injEq, String.ext_iff, String.toList_append,
      String.toList_append, String.toList_ofList, String.toList_ofList, List.append_cancel_left_eq]
  · have hroom : room start = 0 := Nat.sub_eq_zero_of_le hge
    simp [hroom, make?_of_ge hge draw draw']

/-- Whether there is an id, and how many bytes it has, does not depend on what is drawn. -/
theorem map_bytes_make?_eq (h : Digits draw) (h' : Digits draw') (start : String) :
    (make? start draw).map bytes = (make? start draw').map bytes := by
  have hnone : make? start draw = none ↔ make? start draw' = none :=
    (make?_eq_none_iff h).trans (make?_eq_none_iff h').symm
  cases hid : make? start draw with
  | none => rw [hnone.1 hid]
  | some id =>
    have hsome : make? start draw' ≠ none := mt hnone.2 (hid ▸ Option.some_ne_none id)
    obtain ⟨id', hid'⟩ := Option.ne_none_iff_exists'.1 hsome
    rw [hid', Option.map_some, Option.map_some, (make?_eq_some_iff.1 hid).2, (make?_eq_some_iff.1 hid').2, h.bytes_eq,
      h'.bytes_eq]

end Ids

/-! ## Different ids -/

/-- Digits that may be drawn, with a given one in front. -/
def drawnFrom (c : Char) : String :=
  String.ofList (c :: (List.replicate 11 '0' ++ '4' :: (List.replicate 3 '0' ++ '8' :: List.replicate 15 '0')))

theorem drawn_drawnFrom {c : Char} (hc : c ∈ hexDigits) : Drawn (drawnFrom c) := by
  refine ⟨⟨?_, fun d hd => ?_⟩, ?_, '8', by decide, ?_⟩
  · simp [drawnFrom, drawWidth]
  · simp only [drawnFrom, String.toList_ofList, List.mem_cons, List.mem_append, List.mem_replicate] at hd
    rcases hd with rfl | ⟨-, rfl⟩ | rfl | ⟨-, rfl⟩ | rfl | ⟨-, rfl⟩
    · exact hc
    all_goals decide
  · simp [drawnFrom]
  · simp [drawnFrom]

section Safe

variable {start : String}

/-- When there is room for a digit, ids that differ in the first one differ. -/
theorem make?_drawnFrom_inj (hlt : bytes start < maxBytes) {c c' : Char} (hc : c ∈ hexDigits) (hc' : c' ∈ hexDigits)
    (h : make? start (drawnFrom c) = make? start (drawnFrom c')) : c = c' := by
  rw [make?_eq_iff (drawn_drawnFrom hc).toDigits (drawn_drawnFrom hc').toDigits] at h
  have hroom : 0 < room start := Nat.sub_pos_of_lt hlt
  obtain ⟨m, hm⟩ := Nat.exists_eq_succ_of_ne_zero hroom.ne'
  simp only [hm, drawnFrom, String.toList_ofList, List.take_succ_cons, List.cons.injEq] at h
  exact h.1

/-- Ids are safe just when our text leaves a byte to the drawn digits. -/
theorem safe_iff : Safe start ↔ bytes start < maxBytes := by
  constructor
  · rintro ⟨-, draw, draw', -, -, hne⟩
    by_contra hge
    exact hne (make?_of_ge (not_lt.1 hge) draw draw')
  · intro hlt
    refine ⟨fun draw h => ?_, drawnFrom '0', drawnFrom '1', drawn_drawnFrom (by decide), drawn_drawnFrom (by decide),
      fun h => ?_⟩
    · have hmade := make?_of_le h hlt.le
      exact ⟨_, hmade, bytes_le_of_make? hmade⟩
    · exact absurd (make?_drawnFrom_inj hlt (by decide) (by decide) h) (by decide)

/-- As long as fewer than sixteen ids are taken, another one may be drawn. -/
theorem exists_fresh (hlt : bytes start < maxBytes) (taken : List String) (hfew : taken.length < hexDigits.length) :
    ∃ draw id, Drawn draw ∧ make? start draw = some id ∧ id ∉ taken := by
  by_contra hno
  simp only [not_exists, not_and, not_not] at hno
  -- else the sixteen ids that differ in the first digit are all taken
  have hnodup : (hexDigits.map fun c => make? start (drawnFrom c)).Nodup :=
    List.Nodup.map_on (fun c hc c' hc' h => make?_drawnFrom_inj hlt hc hc' h) (by decide)
  have hsubset : (hexDigits.map fun c => make? start (drawnFrom c)) ⊆ taken.map some := by
    intro id? hid
    obtain ⟨c, hc, rfl⟩ := List.mem_map.1 hid
    have hdrawn := drawn_drawnFrom hc
    have hmade := make?_of_le hdrawn.toDigits hlt.le
    rw [hmade]
    exact List.mem_map_of_mem (hno _ _ hdrawn hmade)
  have hlength := (List.Nodup.subperm hnodup hsubset).length_le
  rw [List.length_map, List.length_map] at hlength
  omega

end Safe

end OrderKeeper.OrderId
