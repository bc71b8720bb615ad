/-!
# Value types

The four types of the algebra. Every type is nullable: a column or a tree of any type may yield a
null of that type.
-/

namespace QueryParity

/-- Type of a value, a column or a tree. -/
inductive ValueType where
  | int
  | bool
  | string
  | dateTime
  deriving DecidableEq, Repr, Inhabited

namespace ValueType

/-- Every type, in the order in which types are listed and sorted. -/
def all : List ValueType := [.int, .bool, .string, .dateTime]

/-- No type is missing from `all`. -/
@[simp] theorem mem_all (t : ValueType) : t ∈ all := by cases t <;> decide

/-- No type is listed twice. -/
theorem nodup_all : all.Nodup := by decide

/-- Name of a type in settings, messages and programs. -/
def label : ValueType → String
  | .int => "int"
  | .bool => "bool"
  | .string => "string"
  | .dateTime => "date_time"

/-- The type with the given label; labels are matched exactly. -/
def ofLabel? : String → Option ValueType
  | "int" => some .int
  | "bool" => some .bool
  | "string" => some .string
  | "date_time" => some .dateTime
  | _ => none

/-- Every label reads back as its type. -/
@[simp] theorem ofLabel?_label (t : ValueType) : ofLabel? t.label = some t := by cases t <;> rfl

/-- Name of a type inside a bracketed list of types. -/
def title : ValueType → String
  | .int => "Int"
  | .bool => "Bool"
  | .string => "String"
  | .dateTime => "DateTime"

/-- Name of the row property that holds a value of this type. -/
def propertyName : ValueType → String
  | .int => "Number"
  | .bool => "Bool"
  | .string => "String"
  | .dateTime => "DateTime"

/-- A list of types in brackets, separated by commas. -/
def titles (ts : List ValueType) : String := "[" ++ ", ".intercalate (ts.map title) ++ "]"

end ValueType

end QueryParity
