import QueryParity.Fault
import QueryParity.Value

/-!
# Typed columns

A column holds the contents of one type, nulls as missing contents. Only values of its type can be
written: a writer gives the column back with its outcome, as it was if the value is refused. A
reader states the type it expects.
-/

namespace QueryParity

/-- The contents of the values of a type that are not null. -/
def ValueType.Content : ValueType → Type
  | .int => Int32
  | .bool => Bool
  | .string => String
  | .dateTime => Instant

namespace Value

/-- The content of a value of the given type, `none` inside for its null; no content for a value of
another type. -/
def content? (type : ValueType) (v : Value) : Option (Option type.Content) :=
  match type, v with
  | .int, .int n => some (some n)
  | .bool, .bool b => some (some b)
  | .string, .string s => some (some s)
  | .dateTime, .dateTime t => some (some t)
  | type, .null found => if found = type then some none else none
  | _, _ => none

/-- The value of the given type with a content, the null without one. -/
def ofContent (type : ValueType) : Option type.Content → Value
  | none => .null type
  | some x =>
    match type, x with
    | .int, n => .int n
    | .bool, b => .bool b
    | .string, s => .string s
    | .dateTime, t => .dateTime t

/-- A value has the type of its content. -/
@[simp] theorem type_ofContent (type : ValueType) (x : Option type.Content) :
    (ofContent type x).type = type := by
  cases x <;> cases type <;> rfl

/-- A value has contents exactly for its type. -/
theorem content?_isSome_iff {type : ValueType} {v : Value} :
    (v.content? type).isSome ↔ v.type = type := by
  cases v <;> cases type <;> simp [content?, Value.type]

/-- Contents give the value back. -/
theorem ofContent_of_content? {type : ValueType} {v : Value} {x : Option type.Content}
    (h : v.content? type = some x) : ofContent type x = v := by
  cases v with
  | null found =>
    have hnull : content? type (.null found) = if found = type then some none else none := by
      cases type <;> rfl
    rw [hnull] at h
    split at h
    · subst found
      cases h
      rfl
    · cases h
  | _ =>
    cases type <;> cases h
    rfl

end Value

/-- A column of one type. -/
structure Column where
  /-- Type of every value of the column. -/
  type : ValueType
  /-- Contents by row. -/
  cells : Array (Option type.Content)

namespace Column

/-- A column without rows. -/
def empty (type : ValueType) : Column := ⟨type, #[]⟩

/-- Number of rows. -/
def length (c : Column) : Nat := c.cells.size

/-- Append a value of the column's type. The outcome comes with the column as it is afterwards. -/
def push (c : Column) (v : Value) : Except Fault Unit × Column :=
  match v.content? c.type with
  | some x => (.ok (), ⟨c.type, c.cells.push x⟩)
  | none => (.error (.typeMismatch .columnWrite c.type v.type), c)

/-- The value in a row; beyond the last row there are only nulls. -/
def value (c : Column) (row : Nat) : Value := .ofContent c.type (c.cells[row]?.getD none)

/-- The value in a row of a column that is expected to have the given type. -/
def read (c : Column) (expected : ValueType) (row : Nat) : Except Fault Value :=
  if c.type = expected then .ok (c.value row)
  else .error (.typeMismatch .columnRead expected c.type)

/-- The type of a column stays, whether a value is taken or refused. -/
@[simp] theorem type_push (c : Column) (v : Value) : (c.push v).2.type = c.type := by
  unfold push
  split <;> rfl

/-- A value of another type is refused, and the column stays as it is. -/
theorem push_of_ne {c : Column} {v : Value} (h : v.type ≠ c.type) :
    c.push v = (.error (.typeMismatch .columnWrite c.type v.type), c) := by
  have hcontent : v.content? c.type = none := by
    rw [← Option.not_isSome_iff_eq_none, Value.content?_isSome_iff]
    exact h
  rw [push, hcontent]

/-- The value of a numbered column in a row. -/
def readField (columns : List Column) (column : Nat) (type : ValueType) (row : Nat) :
    Except Fault Value :=
  match columns[column]? with
  | some c => c.read type row
  | none => .error (.columnOutOfRange column columns.length)

end Column

end QueryParity
