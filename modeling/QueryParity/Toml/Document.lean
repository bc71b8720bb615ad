import QueryParity.Toml.Table
import QueryParity.Toml.Text

/-!
# Settings files

A document is a sequence of lines. A line is blank, opens a table by its header, or assigns a value
to a key. Arrays and tables between brackets may go on over several lines. Fractions, truth values
and dates are refused, because no setting has such a value.
-/

namespace QueryParity.Toml

/-- The longest word at the beginning of a text whose characters pass a test. -/
def word (test : Char → Bool) : Reader (List Char)
  | c :: rest =>
    if test c then
      some (c :: rest.takeWhile test, ⟨rest.dropWhile test,
        Nat.lt_succ_of_le (length_dropWhile_le test rest)⟩)
    else none
  | [] => none

/-- Whether a character may stand in a key without quotes. -/
def isKeyChar (c : Char) : Bool := c.isAlphanum || c = '_' || c = '-'

/-- A key, with or without quotes. -/
def simpleKey : Reader String := fun s =>
  (lineString s <|> word isKeyChar s).map fun (cs, rest) => (String.ofList cs, rest)

/-- Keys between dots, with spaces around them. -/
def keyPath (s : List Char) : Option (List String × Rest s) :=
  match simpleKey (skipSpaces s) with
  | none => none
  | some (key, ⟨rest, h⟩) =>
    have h : rest.length < s.length := Nat.lt_of_lt_of_le h (length_skipSpaces_le s)
    match expect .spaces '.' rest with
    | none => some ([key], ⟨rest, h⟩)
    | some ⟨more, hm⟩ =>
      have hm : more.length < s.length := Nat.lt_trans hm h
      (within (Nat.le_of_lt hm) (keyPath more)).map fun (keys, rest) => (key :: keys, rest)
termination_by s.length

/-- Whether a character may stand in a number. -/
def isNumberChar (c : Char) : Bool := c.isAlphanum || c = '_' || c = '+' || c = '-'

/-- An integer. -/
def integer : Reader Int := fun s => do
  let (digits, rest) ← word isNumberChar s
  let n ← integerValue? digits
  some (n, rest)

/-- A value that is neither an array nor a table. -/
def scalar : Reader Value := fun s =>
  match anyString s with
  | some (cs, rest) => some (.string (String.ofList cs), rest)
  | none => (integer s).map fun (n, rest) => (.integer n, rest)

/-- Keys, an equals sign and a value, with gaps around the sign. -/
def assignment (gap : Gap) (value : Reader Value) : Reader (List String × Value) := fun s =>
  match keyPath s with
  | none => none
  | some (path, ⟨rest, h⟩) =>
    match expect gap '=' rest with
    | none => none
    | some ⟨right, hr⟩ =>
      (within (Nat.le_of_lt (Nat.lt_trans hr h)) (behind gap value right)).map fun (v, rest) =>
        ((path, v), rest)

/-- A value whose arrays and tables are nested to at most the given depth. -/
def value : (depth : Nat) → Reader Value
  | 0, s => scalar s
  | depth + 1, '[' :: rest =>
    (afterFirst (sequence ']' (value depth) rest)).map fun (items, rest) =>
      (.array items, rest)
  | depth + 1, '\x7b' :: rest => do
    let (assignments, rest) ←
      afterFirst (sequence '\x7d' (assignment .lines (value depth)) rest)
    let nodes ← Nodes.ofAssignments assignments
    some (.table (Nodes.toEntries nodes), rest)
  | _ + 1, s => scalar s

/-- Bound on the nesting of arrays and tables in a value. -/
def maxNesting : Nat := 80

/-- What a line of a document does. -/
inductive Statement where
  /-- Assign a value to a key of the open table. -/
  | assign (path : List String) (v : Value)
  /-- Open a table. -/
  | table (path : List String)
  /-- Append a table to an array of tables and open it. -/
  | item (path : List String)

/-- The rest of a header that appends a table: the keys and two brackets. -/
def itemHeader : Reader (List String) := fun s =>
  match keyPath s with
  | none => none
  | some (path, ⟨rest, h⟩) =>
    match expect .spaces ']' rest with
    | some ⟨']' :: rest, hr⟩ => some (path, ⟨rest, by simp only [List.length_cons] at hr; omega⟩)
    | _ => none

/-- The rest of a header that opens a table: the keys and a bracket. -/
def tableHeader : Reader (List String) := fun s =>
  match keyPath s with
  | none => none
  | some (path, ⟨rest, h⟩) =>
    (expect .spaces ']' rest).map fun rest => (path, ⟨rest.1, Nat.lt_trans rest.2 h⟩)

/-- What a line does that is not blank. -/
def statement : Reader Statement
  | '[' :: '[' :: rest =>
    (afterFirst (afterFirst (itemHeader rest))).map fun (path, rest) => (.item path, rest)
  | '[' :: rest =>
    (afterFirst (tableHeader rest)).map fun (path, rest) => (.table path, rest)
  | s =>
    (assignment .spaces (value maxNesting) s).map fun ((path, v), rest) => (.assign path v, rest)

/-- What the lines of a text do. -/
def statements (s : List Char) : Option (List Statement) :=
  match hs : skipLines false s with
  | none => none
  | some [] => some []
  | some (c :: t) =>
    match statement (c :: t) with
    | none => none
    | some (first, ⟨rest, h⟩) =>
      have : rest.length < s.length := Nat.lt_of_lt_of_le h (length_le_of_skipLines hs)
      if endsLine rest then (statements rest).map (first :: ·) else none
termination_by s.length

/-- A document that is being read: the header of the open table, and all keys. -/
structure Draft where
  /-- Header of the open table. -/
  header : List String
  /-- The keys of the document. -/
  nodes : Nodes

/-- Carry out a statement. -/
def Draft.add (d : Draft) : Statement → Option Draft
  | .assign path v => (d.nodes.under (Nodes.assign v path) d.header).map ({ d with nodes := · })
  | .table path =>
    (d.nodes.under (Nodes.openTable (path.getLastD "")) path.dropLast).map (⟨path, ·⟩)
  | .item path =>
    (d.nodes.under (Nodes.openItem (path.getLastD "")) path.dropLast).map (⟨path, ·⟩)

/-- A text without a byte order mark at its beginning. -/
def skipMark : List Char → List Char
  | '\ufeff' :: rest => rest
  | s => s

/-- The entries of a document. -/
def read (s : List Char) : Option Entries := do
  let lines ← statements (skipMark s)
  let draft ← lines.foldlM Draft.add ⟨[], []⟩
  some (Nodes.toEntries draft.nodes)

end QueryParity.Toml
