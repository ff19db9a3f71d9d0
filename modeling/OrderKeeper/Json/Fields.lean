import OrderKeeper.Json.Value
import OrderKeeper.Binary64.Text
import OrderKeeper.Decimal.Text

/-!
# Reading records from JSON

A record is read member by member from an object, where members may stand in any order and unknown ones are ignored,
or from a list that gives the members by place. A known name that occurs twice is refused.

A member is `required`, may be absent or null (`optional`; by place it cannot be absent, unless `mayLack`), or has a
value that stands in when it is absent (`withDefault`); null does not stand for absence there.

`Scalars` says how single values are read, so that one description of a record serves more than one notation;
`strict` converts nothing.
-/

namespace OrderKeeper.Json

/-- The members of a record that are still to be read. -/
inductive Members where
  | named (members : List (String × Json))
  | placed (items : List Json)

namespace Members

/-- The members that a value offers. -/
def ofJson? : Json → Option Members
  | object members => some (named members)
  | list items => some (placed items)
  | _ => none

/-- The value of the next member, if there is one, and the members left. A name given twice is refused. -/
def take (name : String) : Members → Option (Option Json × Members)
  | named members =>
    match members.filter (fun m => m.1 = name) with
    | [] => some (none, named members)
    | [m] => some (some m.2, named members)
    | _ => none
  | placed [] => some (none, placed [])
  | placed (v :: rest) => some (some v, placed rest)

/-- Whether members are given by name. -/
def isNamed : Members → Bool
  | named _ => true
  | placed _ => false

/-- Whether nothing is left over that has no place in the record. -/
def isDone : Members → Bool
  | named _ => true
  | placed items => items.isEmpty

end Members

/-- A reader of some members of a record. -/
abbrev MemberReader (α : Type) := StateT Members Option α

/-- The value of a member as it stands. -/
def memberValue (name : String) : MemberReader (Option Json) := fun ms => ms.take name

/-- A member that has to be there. -/
def required {α : Type} (name : String) (read : Json → Option α) : MemberReader α := do
  match ← memberValue name with
  | some v => StateT.lift (read v)
  | none => StateT.lift none

/-- A value, with null for its absence. -/
def nullable {α : Type} (read : Json → Option α) : Json → Option (Option α)
  | null => some none
  | v => (read v).map some

/-- A member that may be null, and may be absent from an object. -/
def optional {α : Type} (name : String) (read : Json → Option α) : MemberReader (Option α) := do
  let byName := (← get).isNamed
  match ← memberValue name with
  | some v => StateT.lift (nullable read v)
  | none => if byName then pure none else StateT.lift none

/-- A member that may be null or absent, also by place. -/
def mayLack {α : Type} (name : String) (read : Json → Option α) : MemberReader (Option α) := do
  match ← memberValue name with
  | some v => StateT.lift (nullable read v)
  | none => pure none

/-- A member with a value to stand in for it. -/
def withDefault {α : Type} (name : String) (standIn : α) (read : Json → Option α) : MemberReader α := do
  match ← memberValue name with
  | some v => StateT.lift (read v)
  | none => pure standIn

/-- A member with a value to stand in for it when it is absent or null. -/
def preset {α : Type} (name : String) (standIn : α) (read : Json → Option α) : MemberReader α := do
  return (← optional name read).getD standIn

/-- A record read from all the members of a value. -/
def readRecord {α : Type} (reader : MemberReader α) (v : Json) : Option α := do
  let (a, rest) ← reader (← Members.ofJson? v)
  if rest.isDone then some a else none

/-- A record read from a value, where a list may go on after the last member. -/
def readOpenRecord {α : Type} (reader : MemberReader α) (v : Json) : Option α := do
  return (← reader (← Members.ofJson? v)).1

/-- A record whose members can only be given by name. -/
def readNamedRecord {α : Type} (reader : MemberReader α) : Json → Option α
  | object members => (reader (.named members)).map (·.1)
  | _ => none

/-- Every item of a list. -/
def readList {α : Type} (read : Json → Option α) : Json → Option (List α)
  | list items => items.mapM read
  | _ => none

/-! ## Single values -/

/-- How single values are read. -/
structure Scalars where
  text : Json → Option String
  bool : Json → Option Bool
  /-- A natural number below a bound. -/
  natBelow : Nat → Json → Option Nat
  real : Json → Option Binary64
  decimal : Json → Option Decimal
  /-- One of a list of names. -/
  name : List String → Json → Option String
  /-- Whether a list that gives a record by place may go on after the last member. -/
  openLists : Bool

/-- A record made of single values. -/
def Scalars.record {α : Type} (s : Scalars) (reader : MemberReader α) : Json → Option α :=
  if s.openLists then readOpenRecord reader else readRecord reader

/-- A truth value. -/
def asBool? : Json → Option Bool
  | bool b => some b
  | _ => none

/-- A natural number below a bound. -/
def asNatBelow? (bound : Nat) : Json → Option Nat
  | int n => if 0 ≤ n ∧ n < bound then some n.toNat else none
  | _ => none

/-- A floating-point number, also one written as an integer. -/
def asReal? : Json → Option Binary64
  | real x => some x
  | int n => some (Binary64.ofInt n)
  | _ => none

/-- A decimal: an integer as it is, a floating-point number by its positional text, or a text. -/
def asDecimal? : Json → Option Decimal
  | int n => Decimal.ofInt? n
  | real x => Decimal.ofText? x.positional
  | text s => Decimal.ofText? s
  | _ => none

/-- A name on its own, or the name of a lone member that is null. -/
def asName? : Json → Option String
  | text s => some s
  | object [(s, null)] => some s
  | _ => none

/-- One of a list of names, exactly. -/
def asNameOf? (names : List String) (v : Json) : Option String := do
  let s ← asName? v
  if s ∈ names then some s else none

/-- Values read without any conversion. -/
def strict : Scalars where
  text := asText?
  bool := asBool?
  natBelow := asNatBelow?
  real := asReal?
  decimal := asDecimal?
  name := asNameOf?
  openLists := false

/-- The value that a name in a table stands for. -/
def named? {α : Type} (table : List (String × α)) (by' : Scalars) (v : Json) : Option α := do
  let s ← by'.name (table.map (·.1)) v
  table.lookup s

end OrderKeeper.Json
