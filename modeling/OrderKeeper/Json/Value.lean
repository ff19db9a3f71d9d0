import OrderKeeper.Binary64.Basic

/-!
# JSON values

An object is the list of its members as they were written or are to be written, so a name may occur twice. The
canonical form (`Json.canonical`) is what a reader without interest in order keeps: members sorted by name, and of
equal names the last.
-/

namespace OrderKeeper

/-- A JSON value. A number is an integer of at most 64 bits or a binary floating-point number. -/
inductive Json where
  | null
  | bool (b : Bool)
  | int (n : Int)
  | real (x : Binary64)
  | text (s : String)
  | list (items : List Json)
  | object (members : List (String × Json))
deriving Inhabited

namespace Json

/-- The member of a name in a list of members, the last one if there are several. -/
def lastNamed? (name : String) (members : List (String × Json)) : Option Json :=
  members.foldl (fun found m => if m.1 = name then some m.2 else found) none

/-- The member of a name of an object. -/
def member? (name : String) : Json → Option Json
  | object members => lastNamed? name members
  | _ => none

/-- A member put into a list sorted by name, in place of one of the same name. -/
def insertMember (name : String) (v : Json) : List (String × Json) → List (String × Json)
  | [] => [(name, v)]
  | (n, w) :: rest =>
    if name < n then (name, v) :: (n, w) :: rest
    else if name = n then (name, v) :: rest
    else (n, w) :: insertMember name v rest

mutual

/-- The value with the members of every object sorted by name, of equal names only the last. -/
def canonical : Json → Json
  | list items => list (canonicalItems items)
  | object members => object ((canonicalMembers members).foldl (fun acc m => insertMember m.1 m.2 acc) [])
  | v => v

/-- The items in canonical form. -/
def canonicalItems : List Json → List Json
  | [] => []
  | v :: rest => canonical v :: canonicalItems rest

/-- The members with values in canonical form. -/
def canonicalMembers : List (String × Json) → List (String × Json)
  | [] => []
  | (n, v) :: rest => (n, canonical v) :: canonicalMembers rest

end

/-- A member that is written only when there is a value. -/
def present {α : Type} (name : String) (write : α → Json) : Option α → List (String × Json)
  | some a => [(name, write a)]
  | none => []

/-- A value, or null in its absence. -/
def orNull {α : Type} (write : α → Json) : Option α → Json
  | some a => write a
  | none => null

/-- A natural number. -/
def nat (n : Nat) : Json := int n

/-- The text, when the value is one. -/
def asText? : Json → Option String
  | text s => some s
  | _ => none

end Json

end OrderKeeper
