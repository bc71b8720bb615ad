import QueryParity.Dataset

/-!
# Seed data

Entities of each type, from whose combinations rows are made. The entities of a type are numbered
from zero in the order in which they were added. The rows of a cross join are counted in a machine
word before the first of them is made.
-/

namespace QueryParity

/-- Entities of every type. -/
structure SeedData where
  /-- All entities in the order in which they were added. -/
  entities : List Value
  deriving DecidableEq, Repr, Inhabited

namespace SeedData

/-- The entities of a type; the position is the number of an entity. -/
def table (seed : SeedData) (type : ValueType) : List Value :=
  seed.entities.filter (·.type = type)

/-- Add an entity to the table of its type; nulls are entities of their type. -/
def push (seed : SeedData) (v : Value) : SeedData := ⟨seed.entities ++ [v]⟩

/-- A new entity comes last in the table of its type, and the other tables stay as they are. -/
theorem table_push (seed : SeedData) (v : Value) (type : ValueType) :
    (seed.push v).table type = seed.table type ++ (if v.type = type then [v] else []) := by
  simp only [table, push, List.filter_append, List.filter_cons, List.filter_nil, decide_eq_true_eq]

/-- A few entities of each type, among them a null. No integer is zero, so that a zero divisor
always stems from a literal or a computation. -/
def standard : SeedData :=
  ⟨[.int 1, .int 2, .int (-3), .string "A", .string "B", .bool true, .bool false,
    .dateTime ⟨0, 0⟩, .dateTime ⟨1000000000, 0⟩,
    .null .int, .null .string, .null .bool, .null .dateTime]⟩

end SeedData

namespace Dataset

/-- Every combination of one entity per table, the last table varying fastest. -/
def combinations : List (List Value) → List Row
  | [] => [⟨[], []⟩]
  | table :: tables =>
    let rest := combinations tables
    table.zipIdx.flatMap fun (v, i) => rest.map fun r => ⟨i :: r.key, v :: r.values⟩

/-- The cross join of one table per column. Without columns it has one row, which is empty. -/
def crossJoin (seed : SeedData) (columns : List ValueType) : Except ConfigError Dataset :=
  match columns.find? fun type => (seed.table type).isEmpty with
  | some type => .error (.emptySeedTable type)
  | none => .ok ⟨columns, combinations (columns.map seed.table)⟩

/-- The product of some counts in a machine word, unless it gets too large for one on the way. -/
def product? (counts : List Nat) : Option UInt64 :=
  counts.foldlM (fun product count =>
    if product.toNat * count < UInt64.size then some (product.toNat * count).toUInt64 else none) 1

/-- The number of rows that a cross join makes room for. -/
def capacity? (seed : SeedData) (columns : List ValueType) : Option UInt64 :=
  product? (columns.map fun type => (seed.table type).length)

/-- A cross join as it is built: an empty table is found first, then the rows are counted to make
room for them. Where they are too many to be counted, building breaks off without a result. -/
def crossJoin? (seed : SeedData) (columns : List ValueType) : Option (Except ConfigError Dataset) :=
  match columns.find? fun type => (seed.table type).isEmpty with
  | some type => some (.error (.emptySeedTable type))
  | none =>
    (capacity? seed columns).map fun _ => .ok ⟨columns, combinations (columns.map seed.table)⟩

/-- Whether a cross join breaks off because its rows are too many to be counted. An empty table is
found before the rows are counted. -/
def overflows (seed : SeedData) (columns : List ValueType) : Bool :=
  columns.all (fun type => !(seed.table type).isEmpty) && (capacity? seed columns).isNone

/-- A cross join is built unless its rows are too many to be counted. -/
theorem crossJoin?_eq (seed : SeedData) (columns : List ValueType) :
    crossJoin? seed columns =
      if overflows seed columns then none else some (crossJoin seed columns) := by
  rw [crossJoin?, crossJoin, overflows]
  cases hempty : columns.find? fun type => (seed.table type).isEmpty with
  | some type =>
    have hnot : columns.all (fun type => !(seed.table type).isEmpty) = false := by
      rw [List.all_eq_false]
      exact ⟨type, List.mem_of_find?_eq_some hempty, by simpa using List.find?_some hempty⟩
    rw [hnot]
    rfl
  | none =>
    have hall : columns.all (fun type => !(seed.table type).isEmpty) = true := by
      rw [List.all_eq_true]
      exact fun type htype => by simpa using List.find?_eq_none.mp hempty type htype
    rw [hall]
    cases capacity? seed columns <;> rfl

end Dataset

end QueryParity
