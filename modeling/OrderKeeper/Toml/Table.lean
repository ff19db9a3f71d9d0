import OrderKeeper.Json.Value

/-!
# Tables of a TOML document

A document is a tree of tables. A table remembers how it came about (`TableKind`), since that decides what may be
added to it: a header opens a table once, and a table that only stood on the way to a header may still be opened; a
dotted key extends only tables that dotted keys have made.

`Members.reach?` changes the table at a path, `Members.assign?` puts a value at a dotted key, and `Members.openTable?`
and `Members.openItem?` do what the two kinds of headers ask. All refuse what would give a name two meanings.
-/

namespace OrderKeeper.Toml

/-- How a table came about. -/
inductive TableKind where
  /-- A header named it. -/
  | header
  /-- It stood on the way to a header. -/
  | implied
  /-- A dotted key made it. -/
  | dotted
deriving DecidableEq

/-- What a name stands for in a table. -/
inductive Node where
  /-- A value that is complete. -/
  | value (v : Json)
  /-- A table. -/
  | table (kind : TableKind) (members : List (String × Node))
  /-- A list of tables that headers go on with. -/
  | tables (items : List (List (String × Node)))

/-- The members of a table, in the order in which they were named. -/
abbrev Members := List (String × Node)

mutual

/-- The value of a node. -/
def Node.toJson : Node → Json
  | .value v => v
  | .table _ members => .object (membersToJson members)
  | .tables items => .list (itemsToJson items)

/-- The values of the members of a table. -/
def membersToJson : List (String × Node) → List (String × Json)
  | [] => []
  | (name, node) :: rest => (name, node.toJson) :: membersToJson rest

/-- The values of the tables of a list. -/
def itemsToJson : List (List (String × Node)) → List Json
  | [] => []
  | members :: rest => .object (membersToJson members) :: itemsToJson rest

end

namespace Members

/-- The node of a name. -/
def find? (name : String) (ms : Members) : Option Node := (List.find? (fun m => m.1 = name) ms).map (·.2)

/-- The members with a node under a name, in the place of the one there was. -/
def put (name : String) (node : Node) : Members → Members
  | [] => [(name, node)]
  | (n, old) :: rest => if n = name then (n, node) :: rest else (n, old) :: put name node rest

/-- Whether a dotted key may go through a table of a kind, or end in it. -/
def admitsDotted (kind : TableKind) (isLast : Bool) : Bool :=
  match kind with
  | .header => false
  | .implied => !isLast
  | .dotted => true

/-- The tables with the table at a path changed. Tables that are missing are made; of a list of tables the last one is
meant. A path of a dotted key does not go through tables of headers and ends in a table of dotted keys. -/
def reach? (isDotted : Bool) (change : Members → Option Members) : List String → Members → Option Members
  | [], ms => change ms
  | name :: path, ms => do
    let node ← match ms.find? name with
      | none => (Node.table (if isDotted then .dotted else .implied)) <$> reach? isDotted change path []
      | some (.table kind inner) =>
        if isDotted ∧ ¬ admitsDotted kind path.isEmpty then none
        else (Node.table kind) <$> reach? isDotted change path inner
      | some (.tables items) =>
        if isDotted ∧ path.isEmpty then none
        else do
          let last ← reach? isDotted change path (← items.getLast?)
          some (Node.tables (items.dropLast ++ [last]))
      | some (.value _) => none
    return ms.put name node

/-- The members with a value under a name that has none yet. -/
def assignName? (name : String) (v : Json) (ms : Members) : Option Members :=
  match ms.find? name with
  | none => some (ms ++ [(name, .value v)])
  | some _ => none

/-- The members with a value at a dotted key. -/
def assign? (key : List String) (v : Json) (ms : Members) : Option Members := do
  reach? true (assignName? (← key.getLast?) v) key.dropLast ms

/-- The members with the table of a header under a name. -/
def openName? (name : String) (ms : Members) : Option Members :=
  match ms.find? name with
  | none => some (ms.put name (.table .header []))
  | some (.table .implied inner) => some (ms.put name (.table .header inner))
  | some _ => none

/-- The members with one more table in the list under a name. -/
def openItemName? (name : String) (ms : Members) : Option Members :=
  match ms.find? name with
  | none => some (ms.put name (.tables [[]]))
  | some (.tables items) => some (ms.put name (.tables (items ++ [[]])))
  | some _ => none

/-- The tables with the one of a header opened. -/
def openTable? (path : List String) (ms : Members) : Option Members := do
  reach? false (openName? (← path.getLast?)) path.dropLast ms

/-- The tables with one more table in the list of a header. -/
def openItem? (path : List String) (ms : Members) : Option Members := do
  reach? false (openItemName? (← path.getLast?)) path.dropLast ms

end Members

end OrderKeeper.Toml
