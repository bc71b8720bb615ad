import QueryParity.ValueType

/-!
# Faults

What can go wrong while a tree or a program is evaluated.
-/

namespace QueryParity

/-- Where a value or a column of another type than expected was met. -/
inductive FaultSite where
  | integerArithmetic
  | conjunction
  | disjunction
  | equality
  | comparison
  | negation
  | arithmeticNegation
  | conversion
  | stringPredicate
  | atTimeZone
  | filter
  | columnRead
  | columnWrite
  | fieldAccess
  deriving DecidableEq, Repr

/-- Name of a site in messages. -/
def FaultSite.name : FaultSite → String
  | .integerArithmetic => "integer arithmetic"
  | .conjunction => "conjunction"
  | .disjunction => "disjunction"
  | .equality => "equality"
  | .comparison => "comparison"
  | .negation => "negation"
  | .arithmeticNegation => "arithmetic negation"
  | .conversion => "conversion"
  | .stringPredicate => "string predicate"
  | .atTimeZone => "AtTimeZone"
  | .filter => "filter"
  | .columnRead => "column read"
  | .columnWrite => "column write"
  | .fieldAccess => "field access"

/-- A fault of evaluation. -/
inductive Fault where
  /-- Integer division or remainder by zero. -/
  | divideByZero
  /-- A placeholder that no substitution has bound. -/
  | unboundRoot (index : Nat)
  /-- An access to a column that the row does not have. -/
  | columnOutOfRange (column width : Nat)
  /-- A value or column of another type than expected. -/
  | typeMismatch (site : FaultSite) (expected found : ValueType)
  /-- A zone that is neither UTC nor a fixed offset. -/
  | unknownTimeZone (zone : String)
  /-- Too few values for an application. -/
  | stackUnderflow (index : Nat)
  deriving DecidableEq, Repr

namespace Fault

/-- What is said about a fault. -/
def message : Fault → String
  | .divideByZero => "Attempted to divide by zero."
  | .unboundRoot index =>
    s!"Root placeholder `${index}` reached evaluation without being bound to a column."
  | .columnOutOfRange column width =>
    s!"Column {column} is out of range for rows of {width} column(s)."
  | .typeMismatch site expected found =>
    s!"Type mismatch in {site.name}: expected `{expected.label}`, found `{found.label}`."
  | .unknownTimeZone zone =>
    s!"Unknown time zone `{zone}`; expected `UTC` or a fixed offset such as `+02:00`."
  | .stackUnderflow index => s!"Evaluation stack underflow at instruction {index}."

/-- Whether both evaluation paths may raise the fault without the case counting as a failure:
division by zero only. -/
def isTolerated : Fault → Bool
  | .divideByZero => true
  | _ => false

/-- Division by zero is the one tolerated fault. -/
theorem isTolerated_iff {f : Fault} : f.isTolerated = true ↔ f = .divideByZero := by
  cases f <;> simp [isTolerated]

end Fault

end QueryParity
