import OrderKeeper.Settings.Codec
import OrderKeeper.Settings.Conversion
import OrderKeeper.Toml.Reader

/-!
# Settings in layers

Settings come from a TOML document and from variables of the environment, which are laid over it. Names of members are
taken in lower case. A variable counts when its name starts with `SYNC__`; two underscores in the rest part the names
on the way to its place (`Place`). Its text is taken for a truth value or a number where it reads as one.

`Settings.ofToml?` reads a document alone and `Settings.load?` both layers.
-/

namespace OrderKeeper.Settings

open OrderKeeper.Text

/-! ## Places -/

/-- A step from a value into it. -/
inductive Step where
  | member (name : String)
  | item (index : Nat)

/-- A place in a tree: a member and steps from there. -/
structure Place where
  first : String
  steps : List Step

namespace Place

/-- A character of a name in the text of a place. -/
def isNameChar (c : Char) : Bool := c.isAlphanum || c = ' ' || c = '_' || c = '-'

/-- The steps of a text: names after points and indices in brackets. -/
def steps? : (fuel : Nat) → List Char → Option (List Step)
  | _, [] => some []
  | 0, _ => none
  | fuel + 1, '.' :: rest => do
    let name := rest.takeWhile isNameChar
    if name.isEmpty then none
    else return .member (String.ofList name) :: (← steps? fuel (rest.dropWhile isNameChar))
  | fuel + 1, '[' :: rest => do
    let rest := rest.dropWhile isBlank
    let index ← nat? (rest.takeWhile isDigit)
    match (rest.dropWhile isDigit).dropWhile isBlank with
    | ']' :: rest => return .item index :: (← steps? fuel rest)
    | _ => none
  | _, _ => none

/-- The place that a text names; a text of another form is the name of a member. -/
def ofText (s : String) : Place :=
  let cs := s.toList
  let name := cs.takeWhile isNameChar
  if name.isEmpty then ⟨s, []⟩
  else match steps? cs.length (cs.dropWhile isNameChar) with
    | some steps => ⟨String.ofList name, steps⟩
    | none => ⟨s, []⟩

end Place

/-! ## Laying one tree over another -/

/-- The members of a value; none unless it is an object. -/
def members : Json → List (String × Json)
  | .object ms => ms
  | _ => []

/-- The items of a value; none unless it is a list. -/
def items : Json → List Json
  | .list vs => vs
  | _ => []

/-- The members with the one of a name replaced or added. -/
def putMember (name : String) (v : Json) : List (String × Json) → List (String × Json)
  | [] => [(name, v)]
  | (n, w) :: rest => if n = name then (n, v) :: rest else (n, w) :: putMember name v rest

/-- The value of a name among members, null in its absence. -/
def valueOf (name : String) (ms : List (String × Json)) : Json := (ms.lookup name).getD .null

mutual

/-- A value laid over another: an object member by member, with names in lower case, and any other in its place. -/
def overlay (old : Json) : Json → Json
  | .object ms => .object (overlayMembers (members old) ms)
  | v => v

/-- Members laid over others. -/
def overlayMembers (old : List (String × Json)) : List (String × Json) → List (String × Json)
  | [] => old
  | (name, v) :: rest =>
    overlayMembers (putMember (fold name) (overlay (valueOf (fold name) old) v) old) rest

end

/-- A list with the item at an index replaced; nulls fill a gap. -/
def putItem (index : Nat) (v : Json) (vs : List Json) : List Json :=
  (vs ++ List.replicate (index + 1 - vs.length) Json.null).set index v

/-- A value laid over what stands at the end of steps from an old value. -/
def overlayAt (old : Json) (steps : List Step) (v : Json) : Json :=
  match steps with
  | [] => overlay old v
  | .member name :: rest =>
    .object (putMember name (overlayAt (valueOf name (members old)) rest v) (members old))
  | .item index :: rest =>
    .list (putItem index (overlayAt ((items old)[index]?.getD .null) rest v) (items old))

/-- A value laid over what stands at a place. -/
def overlayPlace (old : Json) (place : Place) (v : Json) : Json :=
  overlayAt old (.member (fold place.first) :: place.steps) v

/-- The members of a document, each at the place that its name denotes. -/
def overlayDocument (old : Json) (document : Json) : Json :=
  (members document).foldl (fun old m => overlayPlace old (.ofText m.1) m.2) old

/-! ## The environment -/

/-- The integer of 64 bits with a sign that a text of digits with an optional sign denotes. -/
def intOfText? (s : String) : Option Int := do
  let (negative, ds) := match s.toList with
    | '-' :: rest => (true, rest)
    | '+' :: rest => (false, rest)
    | cs => (false, cs)
  let n ← nat? ds
  if negative ∧ n ≤ 2 ^ 63 then some (-n) else if n < 2 ^ 63 then some n else none

/-- What the text of a variable is taken for: a truth value, an integer, a number, or a text. -/
def ofVariable (s : String) : Json :=
  let word := fold s
  if word = "true" then .bool true
  else if word = "false" then .bool false
  else match intOfText? s, Binary64.ofChars? s.toList with
    | some n, _ => .int n
    | none, some x => .real x
    | none, none => .text s

/-- What the names of variables start with, in lower case. -/
def variableMark : String := "sync__"

/-- The text of a place that the name of a variable stands for. -/
def placeOfVariable? (name : String) : Option String :=
  let cs := (fold name).toList
  if variableMark.toList.isPrefixOf cs then
    some ((String.ofList (cs.drop variableMark.length)).replace "__" ".")
  else none

/-- The tree with variables laid over it. -/
def overlayVariables (old : Json) (environment : List (String × String)) : Json :=
  environment.foldl (fun old (name, s) => match placeOfVariable? name with
    | some place => overlayPlace old (.ofText place) (ofVariable s)
    | none => old) old

/-! ## Both layers -/

/-- The settings of a tree of hand-written values. -/
def ofTree? (tree : Json) : Option Settings := Settings.read? converting tree

/-- The settings of a document. -/
def ofToml? (document : String) : Option Settings := do
  ofTree? (overlayDocument (.object []) (← Json.ofToml? document))

/-- The settings of a document, which has to be there, and of the variables of the environment. -/
def load? (document : Option String) (environment : List (String × String)) : Option Settings := do
  ofTree? (overlayVariables (overlayDocument (.object []) (← Json.ofToml? (← document))) environment)

end OrderKeeper.Settings
