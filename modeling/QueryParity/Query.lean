import QueryParity.Dataset
import QueryParity.Expr.Evaluate

/-!
# Queries

A query evaluates a tree on every row of a dataset. A projection gives the value of each row; a
filter gives the rows on which the tree is true. The first fault ends a query.
-/

namespace QueryParity

/-- How the values of a tree are collected. -/
inductive QueryShape where
  /-- One result per row. -/
  | project
  /-- The rows on which the tree is true. -/
  | filter
  deriving DecidableEq, Repr, Inhabited

namespace QueryShape

/-- Name of a shape in settings. -/
def label : QueryShape → String
  | .project => "project"
  | .filter => "filter"

/-- The shape with the given label. -/
def ofLabel? : String → Option QueryShape
  | "project" => some .project
  | "filter" => some .filter
  | _ => none

/-- Every label reads back as its shape. -/
@[simp] theorem ofLabel?_label (s : QueryShape) : ofLabel? s.label = some s := by cases s <;> rfl

/-- Name of a shape in reports. -/
def title : QueryShape → String
  | .project => "Project"
  | .filter => "Filter"

end QueryShape

/-- A tree and the way its values are collected. -/
structure Query where
  /-- A tree over the columns of a dataset. -/
  tree : Expr
  /-- How its values are collected. -/
  shape : QueryShape

/-- One row of a result. -/
structure ResultRow where
  /-- Key of the row of the dataset. -/
  key : RowKey
  /-- Value of the tree on that row. -/
  value : Value
  deriving DecidableEq, Repr

namespace QueryShape

/-- Whether a value keeps its row: a filter keeps true ones, drops false ones and nulls, and faults
on values of other types. -/
def keeps (shape : QueryShape) (v : Value) : Except Fault Bool :=
  match shape with
  | .project => .ok true
  | .filter =>
    match v with
    | .bool b => .ok b
    | .null .bool => .ok false
    | v => .error (.typeMismatch .filter .bool v.type)

/-- The result over the keys of a dataset, and the state that is left. The value of each row is
computed by `valueOf` from its position, counted from `start`, with a state that it may change. -/
def collect {σ : Type} (shape : QueryShape) (valueOf : Nat → σ → Except Fault Value × σ) :
    (start : Nat) → List RowKey → σ → Except Fault (List ResultRow) × σ
  | _, [], state => (.ok [], state)
  | start, key :: keys, state =>
    match valueOf start state with
    | (.error fault, state) => (.error fault, state)
    | (.ok v, state) =>
      match shape.keeps v with
      | .error fault => (.error fault, state)
      | .ok kept =>
        let (rest, state) := collect shape valueOf (start + 1) keys state
        (rest.map fun rows => if kept then ⟨key, v⟩ :: rows else rows, state)

end QueryShape

namespace Dataset

/-- The result of a query over the given rows, each row interpreted on its own. -/
def queryRows (query : Query) : List Row → Except Fault (List ResultRow)
  | [] => .ok []
  | row :: rows => do
    let v ← query.tree.evaluate row.values
    let kept ← query.shape.keeps v
    let rest ← queryRows query rows
    .ok (if kept then ⟨row.key, v⟩ :: rest else rest)

/-- The result of a query, by interpreting the tree on every row. -/
def query (d : Dataset) (query : Query) : Except Fault (List ResultRow) := queryRows query d.rows

end Dataset

end QueryParity
