import OrderKeeper.Json.Value
import OrderKeeper.Binary64.Text

/-!
# Compact JSON text

No blanks are written. A string escapes quotes, backslashes and control characters, the latter by a letter where JSON
has one and by four hexadecimal digits elsewhere. A number that is not finite is written as null.
-/

namespace OrderKeeper.Json

/-- A hexadecimal digit in lower case. -/
def hexDigit (n : Nat) : Char := if n % 16 < 10 then Char.ofNat (48 + n % 16) else Char.ofNat (87 + n % 16)

/-- A character inside a string. -/
def escape (c : Char) : List Char :=
  match c with
  | '"' => ['\\', '"']
  | '\\' => ['\\', '\\']
  | '\x08' => ['\\', 'b']
  | '\x0c' => ['\\', 'f']
  | '\n' => ['\\', 'n']
  | '\r' => ['\\', 'r']
  | '\t' => ['\\', 't']
  | c => if c.toNat < 32 then ['\\', 'u', '0', '0', hexDigit (c.toNat / 16), hexDigit c.toNat] else [c]

/-- A string with its quotes. -/
def quoted (s : String) : List Char := '"' :: s.toList.flatMap escape ++ ['"']

mutual

/-- The characters of a value. -/
def toChars : Json → List Char
  | null => "null".toList
  | bool true => "true".toList
  | bool false => "false".toList
  | int n => (Text.ofInt n).toList
  | real x => if x.isFinite then x.compactChars else "null".toList
  | text s => quoted s
  | list [] => ['[', ']']
  | list (v :: rest) => '[' :: toChars v ++ itemChars rest
  | object [] => ['\x7b', '\x7d']
  | object ((n, v) :: rest) => '\x7b' :: quoted n ++ ':' :: toChars v ++ memberChars rest

/-- The characters after the first item of a list. -/
def itemChars : List Json → List Char
  | [] => [']']
  | v :: rest => ',' :: toChars v ++ itemChars rest

/-- The characters after the first member of an object. -/
def memberChars : List (String × Json) → List Char
  | [] => ['\x7d']
  | (n, v) :: rest => ',' :: quoted n ++ ':' :: toChars v ++ memberChars rest

end

/-- The text of a value. -/
def toText (v : Json) : String := String.ofList v.toChars

end OrderKeeper.Json
