import QueryParity.Toml.Value

/-!
# Tables under construction

A document opens tables by headers and assigns values to keys, which may be dotted. A table opened
by a header or defined by dotted keys may not be defined again, and a value that was assigned may
not be extended.
-/

namespace QueryParity.Toml

/-- How a table came about, which decides what may be added to it. -/
inductive Origin where
  /-- It is only mentioned in the header of a table inside it. -/
  | implied
  /-- It is defined by dotted keys. -/
  | dotted
  /-- It has a header of its own. -/
  | header
  deriving DecidableEq, Repr

/-- What a key stands for while a document is read. -/
inductive Node where
  /-- An assigned value. -/
  | value (v : Value)
  /-- A table to which keys may be added. -/
  | table (origin : Origin) (entries : List (String × Node))
  /-- An array of tables, to the last of which keys may be added. -/
  | tables (earlier : List (List (String × Node))) (last : List (String × Node))

/-- The keys of a table while a document is read. -/
abbrev Nodes : Type := List (String × Node)

namespace Nodes

/-- Give a key that is present another meaning. -/
def put (key : String) (node : Node) : Nodes → Nodes
  | [] => []
  | entry :: rest => if entry.1 = key then (key, node) :: rest else entry :: put key node rest

/-- Change the table that a path of keys leads to. Tables that are missing on the way are implied;
in an array of tables the way goes through the last one. -/
def under (change : Nodes → Option Nodes) : (path : List String) → Nodes → Option Nodes
  | [], t => change t
  | key :: path, t =>
    match t.lookup key with
    | none => (under change path []).map fun inner => t ++ [(key, .table .implied inner)]
    | some (.table origin inner) =>
      (under change path inner).map fun inner => put key (.table origin inner) t
    | some (.tables earlier last) =>
      (under change path last).map fun last => put key (.tables earlier last) t
    | some (.value _) => none

/-- Open a table by its header. -/
def openTable (key : String) (t : Nodes) : Option Nodes :=
  match t.lookup key with
  | none => some (t ++ [(key, .table .header [])])
  | some (.table .implied inner) => some (put key (.table .header inner) t)
  | _ => none

/-- Append a table to an array of tables by its header. -/
def openItem (key : String) (t : Nodes) : Option Nodes :=
  match t.lookup key with
  | none => some (t ++ [(key, .tables [] [])])
  | some (.tables earlier last) => some (put key (.tables (earlier ++ [last]) []) t)
  | _ => none

/-- Assign a value to a dotted key. -/
def assign (v : Value) : (path : List String) → Nodes → Option Nodes
  | [], _ => none
  | [key], t => if (t.lookup key).isNone then some (t ++ [(key, .value v)]) else none
  | key :: path, t =>
    match t.lookup key with
    | none => (assign v path []).map fun inner => t ++ [(key, .table .dotted inner)]
    | some (.table .dotted inner) =>
      (assign v path inner).map fun inner => put key (.table .dotted inner) t
    | _ => none

end Nodes

mutual

/-- The value of a key once a document is read. -/
def Node.toValue : Node → Value
  | .value v => v
  | .table _ entries => .table (Nodes.toEntries entries)
  | .tables earlier last => .array (Nodes.toTables earlier ++ [.table (Nodes.toEntries last)])

/-- The values of keys once a document is read. -/
def Nodes.toEntries : List (String × Node) → List (String × Value)
  | [] => []
  | (key, node) :: rest => (key, node.toValue) :: Nodes.toEntries rest

/-- The values of tables once a document is read. -/
def Nodes.toTables : List (List (String × Node)) → List Value
  | [] => []
  | entries :: rest => .table (Nodes.toEntries entries) :: Nodes.toTables rest

end

/-- The table of some assignments. -/
def Nodes.ofAssignments (assignments : List (List String × Value)) : Option Nodes :=
  assignments.foldlM (fun t (path, v) => t.assign v path) []

end QueryParity.Toml
