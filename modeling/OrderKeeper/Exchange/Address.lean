import OrderKeeper.Exchange.Failure

/-!
# Addresses of streams

The address of a stream is a template with a mark where the token goes. It is opened by scheme, authority and path:
`Address.ofText?` reads these three and `Address.socket?` finds the number of the socket, which an address has to name
unless it is of one of the two stream schemes.
-/

namespace OrderKeeper

/-- A template for addresses and messages. -/
structure TokenTemplate where
  text : String
deriving DecidableEq, Inhabited

namespace TokenTemplate

/-- The mark where the token goes. -/
def mark : List Char := "\x7bcredential\x7d".toList

/-- A text with all marks replaced. -/
def fillFrom (token : List Char) : (skip : Nat) → List Char → List Char
  | _, [] => []
  | skip + 1, _ :: rest => fillFrom token skip rest
  | 0, c :: rest =>
    if mark.isPrefixOf (c :: rest) then token ++ fillFrom token (mark.length - 1) rest else c :: fillFrom token 0 rest

/-- The template with the token in its places. -/
def fill (t : TokenTemplate) (token : String) : String := String.ofList (fillFrom token.toList 0 t.text.toList)

end TokenTemplate

/-- The parts of an address. -/
structure Address where
  scheme : Option String
  authority : String
  path : String
deriving DecidableEq, Inhabited

namespace Address

/-- A letter or digit of ASCII. -/
def isWordChar (c : Char) : Bool := c.isAlpha || c.isDigit

/-- A character of a scheme. -/
def isSchemeChar (c : Char) : Bool := isWordChar c || c = '+' || c = '-' || c = '.'

/-- A character that ends an authority. -/
def endsAuthority (c : Char) : Bool := c = '/' || c = '?' || c = '#'

/-- A character of an authority. -/
def isAuthorityChar (c : Char) : Bool := isWordChar c || "!$&'()*+,-.:;=@[]_~%".toList.contains c

/-- A character of a path, before its query. -/
def isPathChar (c : Char) : Bool :=
  let n := c.toNat
  0x7F ≤ n || (0x21 ≤ n && n ≤ 0x7E && !"#<>?".toList.contains c && n ≠ 0x60)

/-- A character of a query. -/
def isQueryChar (c : Char) : Bool :=
  let n := c.toNat
  0x7F ≤ n || (0x21 ≤ n && n ≤ 0x7E && !"\"#<>".toList.contains c)

/-- The scheme and what follows its slashes, when a text starts with a scheme. -/
def splitScheme? (cs : List Char) : Option (List Char × List Char) :=
  match cs.dropWhile isSchemeChar with
  | ':' :: '/' :: '/' :: rest => some (cs.takeWhile isSchemeChar, rest)
  | _ => none

/-- The longest scheme. -/
def maxScheme : Nat := 64

/-- The last part of a list that is split at a character. -/
def afterLast (c : Char) (cs : List Char) : List Char := (cs.reverse.takeWhile (· ≠ c)).reverse

/-- How brackets and colons of an authority may stand: one pair of brackets at most, and one colon at most after the
user's name and outside the brackets; something after the user's name, and no percent sign in it. -/
structure AuthorityScan where
  colons : Nat := 0
  opened : Bool := false
  closed : Bool := false
  percent : Bool := false
  endsWithAt : Bool := false

/-- The most colons that an authority may have before a bracket or at sign. -/
def maxColons : Nat := 8

/-- One character of an authority taken in. -/
def AuthorityScan.step? (s : AuthorityScan) (c : Char) : Option AuthorityScan :=
  if !isAuthorityChar c then none
  else if c = ':' then
    if maxColons ≤ s.colons then none else some { s with colons := s.colons + 1, endsWithAt := false }
  else if c = '[' then if s.percent || s.opened then none else some { s with opened := true, endsWithAt := false }
  else if c = ']' then
    if !s.opened || s.closed then none
    else some { s with closed := true, colons := 0, percent := false, endsWithAt := false }
  else if c = '@' then some { s with colons := 0, percent := false, endsWithAt := true }
  else if c = '%' then some { s with percent := true, endsWithAt := false }
  else some { s with endsWithAt := false }

/-- Whether a list of characters is an authority. -/
def isAuthority (cs : List Char) : Bool :=
  match cs.foldlM AuthorityScan.step? {} with
  | some s => s.opened == s.closed && s.colons ≤ 1 && !s.endsWithAt && !s.percent
  | none => false

/-- Whether a list of characters is a path with a query, perhaps followed by a fragment of any kind. -/
def isPath (cs : List Char) : Bool :=
  match cs.dropWhile isPathChar with
  | [] => true
  | '#' :: _ => true
  | '?' :: rest =>
    match rest.dropWhile isQueryChar with
    | [] => true
    | '#' :: _ => true
    | _ => false
  | _ => false

/-- An address with an authority; it stands alone unless a scheme comes before it. -/
def ofText? (s : String) : Option Address :=
  match splitScheme? s.toList with
  | some (scheme, rest) =>
    let authority := rest.takeWhile (!endsAuthority ·)
    let path := rest.dropWhile (!endsAuthority ·)
    if scheme.length ≤ maxScheme ∧ isAuthority authority ∧ authority ≠ [] ∧ isPath path then
      some { scheme := String.ofList scheme, authority := String.ofList authority, path := String.ofList path }
    else none
  | none =>
    if s ≠ "" ∧ s.toList.all (!endsAuthority ·) ∧ isAuthority s.toList then
      some { scheme := none, authority := s, path := "" }
    else none

/-- The number of a socket in a text of digits. -/
def socketOf? (cs : List Char) : Option Nat := (Text.nat? cs).bind fun n => if n < 65536 then some n else none

/-- The socket of an address: the one that it names, or else that of its scheme. -/
def socket? (a : Address) : Option Nat :=
  let named := if a.authority.toList.contains ':' then socketOf? (afterLast ':' a.authority.toList) else none
  named.or (match a.scheme with
    | some "ws" => some 80
    | some "wss" => some 443
    | _ => none)

/-- The failure of a stream at an address where nothing answers: the text is no address, has no socket, or leads
nowhere. -/
def failureToOpen (s : String) : Failure :=
  match (ofText? s).map socket? with
  | none => .webSocket "not an address"
  | some none => .webSocket "no socket"
  | some (some _) => .transport "no answer"

end Address

end OrderKeeper
