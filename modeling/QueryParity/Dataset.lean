import QueryParity.ConfigError

/-!
# Datasets

A dataset is a list of rows over typed columns, in ascending order of their keys. The key of a row
names the entities it was made from.
-/

namespace QueryParity

/-- Identity of a row: the numbers of its entities. -/
abbrev RowKey : Type := List Nat

/-- A key in parentheses. -/
def RowKey.display (key : RowKey) : String := "(" ++ ", ".intercalate (key.map toString) ++ ")"

/-- A row of a dataset. -/
structure Row where
  /-- Identity of the row. -/
  key : RowKey
  /-- One value per column. -/
  values : List Value
  deriving DecidableEq, Repr

/-- Rows over typed columns. -/
structure Dataset where
  /-- Type of each column. -/
  schema : List ValueType
  /-- The rows, in order of their keys. -/
  rows : List Row
  deriving DecidableEq, Repr, Inhabited

namespace Dataset

/-- Every row has one value of the right type per column. -/
def Conforms (d : Dataset) : Prop := ∀ r ∈ d.rows, r.values.map Value.type = d.schema

/-- The first column, counted from `column`, whose value has another type. -/
def checkTypes (row : Nat) : (column : Nat) → List ValueType → List Value → Except ConfigError Unit
  | column, expected :: schema, v :: values =>
    if v.type = expected then checkTypes row (column + 1) schema values
    else .error (.datasetTypeMismatch row column expected v.type)
  | _, _, _ => .ok ()

/-- Check the width of a row, then its types. -/
def checkRow (schema : List ValueType) (row : Nat) (values : List Value) :
    Except ConfigError Unit :=
  if values.length = schema.length then checkTypes row 0 schema values
  else .error (.datasetWidthMismatch row schema.length values.length)

/-- The rows numbered from `start`, or what is wrong with the first one that does not conform. -/
def numberRows (schema : List ValueType) : (start : Nat) → List (List Value) →
    Except ConfigError (List Row)
  | _, [] => .ok []
  | start, values :: rest => do
    checkRow schema start values
    let rows ← numberRows schema (start + 1) rest
    .ok (⟨[start], values⟩ :: rows)

/-- A dataset of the given rows; the key of a row is its number. -/
def ofRows (schema : List ValueType) (rows : List (List Value)) : Except ConfigError Dataset := do
  let rows ← numberRows schema 0 rows
  .ok ⟨schema, rows⟩

end Dataset

end QueryParity
