import OrderKeeper.Text.Digits

/-!
# UTF-8

`encode` writes a character in one to four bytes, the first of which tells how many follow. `decode?` accepts the
bytes of characters only: no byte sequence that is longer than it has to be, and no surrogate.
-/

namespace OrderKeeper.Text.Utf8

/-- The six low bits of a number as a byte that continues a character. -/
def continuation (n : Nat) : UInt8 := UInt8.ofNat (128 + n % 64)

/-- The bytes of a character. -/
def encodeChar (c : Char) : List UInt8 :=
  let n := c.toNat
  if n < 0x80 then [UInt8.ofNat n]
  else if n < 0x800 then [UInt8.ofNat (0xC0 + n / 64), continuation n]
  else if n < 0x10000 then [UInt8.ofNat (0xE0 + n / 4096), continuation (n / 64), continuation n]
  else [UInt8.ofNat (0xF0 + n / 262144), continuation (n / 4096), continuation (n / 64), continuation n]

/-- The bytes of a text. -/
def encode (s : String) : List UInt8 := s.toList.flatMap encodeChar

/-- The number of bytes of a character. -/
def width (c : Char) : Nat := (encodeChar c).length

/-- The number that continuing bytes add to a start. -/
def continue? (start : Nat) : List UInt8 → Option Nat
  | [] => some start
  | b :: rest => if 0x80 ≤ b ∧ b < 0xC0 then continue? (start * 64 + b.toNat % 64) rest else none

/-- The character of a number that takes no fewer than `least` to be written. -/
def charFrom? (least n : Nat) : Option Char :=
  if least ≤ n ∧ n.isValidChar then some (Char.ofNat n) else none

/-- The characters of bytes, if they are the bytes of characters. -/
def decode? : List UInt8 → Option (List Char)
  | [] => some []
  | a :: rest =>
    if a < 0x80 then (decode? rest).map (Char.ofNat a.toNat :: ·)
    else match a, rest with
      | a, b :: rest =>
        if 0xC0 ≤ a ∧ a < 0xE0 then do
          let c ← charFrom? 0x80 (← continue? (a.toNat % 32) [b])
          (decode? rest).map (c :: ·)
        else match rest with
          | c :: rest =>
            if 0xE0 ≤ a ∧ a < 0xF0 then do
              let d ← charFrom? 0x800 (← continue? (a.toNat % 16) [b, c])
              (decode? rest).map (d :: ·)
            else match rest with
              | d :: rest =>
                if 0xF0 ≤ a ∧ a < 0xF8 then do
                  let e ← charFrom? 0x10000 (← continue? (a.toNat % 8) [b, c, d])
                  (decode? rest).map (e :: ·)
                else none
              | [] => none
          | [] => none
      | _, [] => none

/-- The text of bytes, if they are the bytes of characters. -/
def text? (bytes : List UInt8) : Option String := (decode? bytes).map String.ofList

end OrderKeeper.Text.Utf8
