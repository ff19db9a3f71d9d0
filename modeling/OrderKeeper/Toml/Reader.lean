import OrderKeeper.Toml.Scalar
import OrderKeeper.Toml.Table

/-!
# Reading a TOML document

A document is a sequence of lines: a header, which says where the lines after it belong, a key with its value, or
nothing but a comment. Values and keys nest at most 79 deep.

`Json.ofToml?` gives the tree of a document. Dates and times become their texts.
-/

namespace OrderKeeper.Toml

open OrderKeeper.Text

/-- How deep values nest, and how many parts a key has, at most. -/
def maxDepth : Nat := 79

/-! ## Blanks and comments -/

/-- The text behind a comment, if there is one in front. -/
def skipComment : List Char → List Char
  | '#' :: rest => rest.dropWhile isPlain
  | cs => cs

/-- The text behind the blanks and the comment that may end a line, and behind the line end. -/
def lineRest? (cs : List Char) : Option (List Char) :=
  match skipComment (skipSpace cs) with
  | [] => some []
  | rest => lineEnd? rest

/-- The text without the blanks, line ends and comments in front. -/
def skipFiller (inComment : Bool) : List Char → List Char
  | '\n' :: rest => skipFiller false rest
  | '\r' :: '\n' :: rest => skipFiller false rest
  | c :: rest =>
    if inComment then if isPlain c then skipFiller true rest else c :: rest
    else if isSpace c then skipFiller false rest
    else if c = '#' then skipFiller true rest
    else c :: rest
  | [] => []

/-! ## Keys -/

/-- A character of a key without quotes. -/
def isBare (c : Char) : Bool := c.isAlphanum || c = '_' || c = '-'

/-- One part of a key. -/
def readPart (cs : List Char) : Option (String × List Char) :=
  match cs with
  | '"' :: _ => readShort '"' cs
  | '\'' :: _ => readShort '\'' cs
  | _ =>
    let name := cs.takeWhile isBare
    if name.isEmpty then none else some (String.ofList name, cs.dropWhile isBare)

/-- A key of at most `fuel` parts with points between them and blanks around each. -/
def readKey : (fuel : Nat) → List Char → Option (List String × List Char)
  | 0, _ => none
  | fuel + 1, cs => do
    let (name, rest) ← readPart (skipSpace cs)
    match skipSpace rest with
    | '.' :: rest =>
      let (key, rest) ← readKey fuel rest
      return (name :: key, rest)
    | rest => return ([name], rest)

/-! ## Values -/

/-- A value that does not nest. -/
def readPlain (cs : List Char) : Option (Json × List Char) :=
  match cs with
  | '"' :: _ => (readText '"' cs).map fun (s, rest) => (.text s, rest)
  | '\'' :: _ => (readText '\'' cs).map fun (s, rest) => (.text s, rest)
  | 't' :: 'r' :: 'u' :: 'e' :: rest => some (.bool true, rest)
  | 'f' :: 'a' :: 'l' :: 's' :: 'e' :: rest => some (.bool false, rest)
  | _ =>
    let moment := (readMoment cs).map fun (s, rest) => (Json.text s, rest)
    let number := (readReal cs).map fun (x, rest) => (Json.real x, rest)
    moment.or (number.or ((readInteger cs).map fun (n, rest) => (Json.int n, rest)))

mutual

/-- A value with at most `depth` levels of nesting inside it, read in at most `fuel` steps. -/
def readValue : (fuel depth : Nat) → List Char → Option (Json × List Char)
  | 0, _, _ => none
  | fuel + 1, depth, cs =>
    match cs with
    | '[' :: rest =>
      if depth = 0 then none else (readItems fuel (depth - 1) rest).map fun (vs, rest) => (.list vs, rest)
    | '\x7b' :: rest =>
      if depth = 0 then none
      else match skipSpace rest with
        | '\x7d' :: rest => some (.object [], rest)
        | rest => (readPairs fuel (depth - 1) [] rest).map fun (ms, rest) => (.object (membersToJson ms), rest)
    | _ => readPlain cs

/-- The items of a list up to its closing bracket; a comma may stand after the last one. -/
def readItems : (fuel depth : Nat) → List Char → Option (List Json × List Char)
  | 0, _, _ => none
  | fuel + 1, depth, cs =>
    match skipFiller false cs with
    | ']' :: rest => some ([], rest)
    | cs => do
      let (v, rest) ← readValue fuel depth cs
      match skipFiller false rest with
      | ']' :: rest => return ([v], rest)
      | ',' :: rest =>
        let (vs, rest) ← readItems fuel depth rest
        return (v :: vs, rest)
      | _ => none

/-- The members of a table in braces up to the closing one, added to those before them. -/
def readPairs : (fuel depth : Nat) → Members → List Char → Option (Members × List Char)
  | 0, _, _, _ => none
  | fuel + 1, depth, ms, cs => do
    let (key, rest) ← readKey maxDepth cs
    let (v, rest) ← readValue fuel depth (skipSpace (← after? '=' rest))
    let ms ← ms.assign? key v
    match skipSpace rest with
    | '\x7d' :: rest => return (ms, rest)
    | ',' :: rest => readPairs fuel depth ms rest
    | _ => none

end

/-! ## Documents -/

/-- What has been read of a document: its tables, and the path of the table that lines belong to. -/
structure Document where
  root : Members
  path : List String

namespace Document

/-- The path of a header between its brackets, and the text behind the closing ones. -/
def readHeader (closing : List Char) (cs : List Char) : Option (List String × List Char) := do
  let (path, rest) ← readKey maxDepth cs
  if rest.take closing.length = closing then return (path, ← lineRest? (rest.drop closing.length)) else none

/-- The document after one more line, whose first character is no blank. -/
def line? (d : Document) (cs : List Char) : Option (Document × List Char) :=
  match cs with
  | '[' :: '[' :: rest => do
    let (path, rest) ← readHeader [']', ']'] rest
    return ({ root := ← d.root.openItem? path, path }, rest)
  | '[' :: rest => do
    let (path, rest) ← readHeader [']'] rest
    return ({ root := ← d.root.openTable? path, path }, rest)
  | '#' :: _ => (lineRest? cs).map fun rest => (d, rest)
  | '\n' :: rest => some (d, rest)
  | '\r' :: '\n' :: rest => some (d, rest)
  | _ => do
    let (key, rest) ← readKey maxDepth cs
    let (v, rest) ← readValue cs.length maxDepth (skipSpace (← after? '=' rest))
    let root ← Members.reach? false (Members.assign? key v) d.path d.root
    return ({ d with root }, ← lineRest? rest)

/-- The document after all lines of a text, read in `fuel` steps at most. -/
def lines? (d : Document) : (fuel : Nat) → List Char → Option Document
  | 0, _ => none
  | fuel + 1, cs =>
    match skipSpace cs with
    | [] => some d
    | cs => do
      let (d, rest) ← d.line? cs
      lines? d fuel rest

end Document

end OrderKeeper.Toml

namespace OrderKeeper

/-- The tree of a TOML document. A byte order mark may stand in front. -/
def Json.ofToml? (s : String) : Option Json :=
  let cs := match s.toList with
    | '\uFEFF' :: rest => rest
    | cs => cs
  (Toml.Document.lines? ⟨[], []⟩ (cs.length + 1) cs).map fun d => .object (Toml.membersToJson d.root)

end OrderKeeper
