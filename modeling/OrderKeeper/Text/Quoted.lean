import OrderKeeper.Text.Digits

/-!
# Quoted text

A text for people's eyes stands between quotes, with quotes, backslashes and what cannot be seen written as escapes: a
letter where there is one, and the number of the character in hexadecimal elsewhere.
-/

namespace OrderKeeper.Text

/-- Ranges of characters that cannot be seen: controls, marks that join the character before, blanks other than the
space, and private use. -/
def unseenRanges : List (Nat × Nat) :=
  [(0x00, 0x1F), (0x7F, 0xA0), (0xAD, 0xAD), (0x300, 0x36F), (0x600, 0x605), (0x61C, 0x61C), (0x6DD, 0x6DD),
    (0x1680, 0x1680), (0x180E, 0x180E), (0x2000, 0x200F), (0x2028, 0x202F), (0x205F, 0x206F), (0x20D0, 0x20F0),
    (0x3000, 0x3000), (0xE000, 0xF8FF), (0xFE00, 0xFE0F), (0xFE20, 0xFE2F), (0xFEFF, 0xFEFF), (0xFFF0, 0xFFFB),
    (0xFFFE, 0xFFFF), (0xE0000, 0x10FFFF)]

/-- Whether a character cannot be seen. -/
def isUnseen (c : Char) : Bool := unseenRanges.any fun r => r.1 ≤ c.toNat ∧ c.toNat ≤ r.2

/-- A hexadecimal number in lower case. -/
def hexDigits (n : Nat) : List Char := Nat.toDigits 16 n

/-- A character between quotes. -/
def escape (c : Char) : List Char :=
  match c with
  | '"' => ['\\', '"']
  | '\\' => ['\\', '\\']
  | '\n' => ['\\', 'n']
  | '\r' => ['\\', 'r']
  | '\t' => ['\\', 't']
  | '\x00' => ['\\', '0']
  | c => if isUnseen c then ['\\', 'u', '\x7b'] ++ hexDigits c.toNat ++ ['\x7d'] else [c]

/-- A text between quotes. -/
def quoted (s : String) : String := String.ofList ('"' :: s.toList.flatMap escape ++ ['"'])

end OrderKeeper.Text
