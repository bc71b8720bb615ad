import QueryParity.Event
import QueryParity.Program.Compile
import QueryParity.Program.Execute
import QueryParity.SeedData

/-!
# Columnar sessions

A session holds a dataset by columns. A query is compiled once and its program is run on every row,
always on the same stack. The session counts its queries; its data are left unchanged by them.
-/

namespace QueryParity

/-- A dataset by columns, the stack of the machine, and the number of queries so far. -/
structure Session where
  /-- Type of each column. -/
  schema : List ValueType
  /-- The columns. -/
  columns : List Column
  /-- Keys of the rows. -/
  keys : List RowKey
  /-- The stack of the machine, as the last program left it. -/
  stack : List Value
  /-- Number of queries so far, failed ones included. -/
  queries : Nat

namespace Session

/-- Append the values of a row to the columns, counted from `column`. -/
def pushRow (row : Nat) : (column : Nat) → List Column → List Value →
    Except ConfigError (List Column)
  | column, ⟨type, cells⟩ :: columns, v :: values =>
    match Column.push ⟨type, cells⟩ v with
    | (.error _, c) => .error (.datasetTypeMismatch row column c.type v.type)
    | (.ok _, c) => do
      let columns ← pushRow row (column + 1) columns values
      .ok (c :: columns)
  | _, columns, _ => .ok columns

/-- Append rows, numbered from `start`. -/
def pushRows : (start : Nat) → List Column → List Row → Except ConfigError (List Column)
  | _, columns, [] => .ok columns
  | start, columns, row :: rows => do
    let columns ← pushRow start 0 columns row.values
    pushRows (start + 1) columns rows

/-- A session over a dataset. -/
def load (d : Dataset) : Except ConfigError Session := do
  let columns ← pushRows 0 (d.schema.map Column.empty) d.rows
  .ok ⟨d.schema, columns, d.rows.map Row.key, [], 0⟩

/-- Number of rows. -/
def rowCount (s : Session) : Nat := s.keys.length

/-- Run a query. A query that compiles is reported with its program. -/
def run (s : Session) (query : Query) : Logged Event (Session × Except Fault (List ResultRow)) := do
  let s := { s with queries := s.queries + 1 }
  match Program.compile query.tree s.schema with
  | .error fault => pure (s, .error fault)
  | .ok program => do
    .emit (.compiled s.queries program)
    let (outcome, stack) := query.shape.collect (program.execute s.columns) 0 s.keys s.stack
    pure ({ s with stack }, outcome)

/-- A query changes nothing in a session but the stack and the count of queries. -/
theorem run_session (s : Session) (query : Query) :
    (s.run query).value.1 =
      { s with stack := (s.run query).value.1.stack, queries := s.queries + 1 } := by
  unfold run
  simp only
  split <;> rfl

end Session

namespace Dataset

/-- The event that reports a cross join with its size. -/
def joinedEvent (d : Dataset) : Event := .joined d.rows.length d.schema

/-- A cross join, which is reported. -/
def joined (seed : SeedData) (columns : List ValueType) :
    Logged Event (Except ConfigError Dataset) :=
  .ofExcept (crossJoin seed columns) joinedEvent

/-- A cross join as it is built and reported: it ends without a result where it breaks off. -/
def joined? (seed : SeedData) (columns : List ValueType) :
    Option (Logged Event (Except ConfigError Dataset)) :=
  (crossJoin? seed columns).map fun joined => .ofExcept joined joinedEvent

end Dataset

end QueryParity
