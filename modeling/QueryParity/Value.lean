import QueryParity.ValueType
import QueryParity.Instant.Calendar
import QueryParity.Text.Quoted

/-!
# Values

The literals that flow through trees, stores and evaluation. A null carries the type of the place
it stands in.
-/

namespace QueryParity

/-- A typed value. -/
inductive Value where
  | null (type : ValueType)
  | int (n : Int32)
  | bool (b : Bool)
  | string (s : String)
  | dateTime (t : Instant)
  deriving DecidableEq, Repr

instance : Inhabited Value := ⟨.null default⟩

namespace Value

/-- The type of a value, nulls included. -/
def type : Value → ValueType
  | .null t => t
  | .int _ => .int
  | .bool _ => .bool
  | .string _ => .string
  | .dateTime _ => .dateTime

/-- Whether a value is a null of some type. -/
def isNull : Value → Bool
  | .null _ => true
  | _ => false

/-- The content of a string that is not null. -/
def text? : Value → Option String
  | .string s => some s
  | _ => none

/-- The date-time value at the start of a second, if the second is representable. -/
def ofSeconds? (seconds : Int) : Option Value :=
  (Instant.ofSeconds? seconds).map .dateTime

/-- How a value is written in trees, programs and reports. -/
def display : Value → String
  | .null _ => "null"
  | .int n => toString n.toInt
  | .bool b => if b then "true" else "false"
  | .string s => quoted s
  | .dateTime t => "#" ++ t.calendarText ++ "#"

end Value

end QueryParity
