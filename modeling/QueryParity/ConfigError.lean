import QueryParity.Expr.Typing

/-!
# Configuration errors

What is wrong with a catalog, a constant pool, a dataset or the settings of a run. These are found
while the parts are put together, before anything is evaluated.
-/

namespace QueryParity

/-- What is wrong with a setting. -/
inductive SettingProblem where
  /-- The odds of a literal operand are zero. -/
  | zeroOdds
  /-- There is no root slot. -/
  | noRootTypes
  /-- There are more root slots than indices. -/
  | tooManyRootTypes
  /-- More root slots were asked for than there are indices. -/
  | tooManySlots (requested : Nat)
  /-- More columns were to be bound than there are indices. -/
  | tooManyColumns (requested : Nat)
  /-- A filter needs a boolean tree. -/
  | filterTarget (target : ValueType)
  deriving DecidableEq, Repr

/-- The setting that a problem is about. -/
def SettingProblem.setting : SettingProblem → String
  | .zeroOdds => "constant_operand_odds"
  | .filterTarget _ => "target"
  | _ => "root_types"

/-- Why the setting is refused. -/
def SettingProblem.reason : SettingProblem → String
  | .zeroOdds => "must be at least 1"
  | .noRootTypes => "at least one root slot is required"
  | .tooManyRootTypes => s!"at most {indexLimit} root slots are supported"
  | .tooManySlots requested =>
    s!"{requested} root slots requested, at most {indexLimit} are supported"
  | .tooManyColumns requested =>
    s!"{requested} columns requested, at most {indexLimit} can be bound"
  | .filterTarget target => s!"filter queries need a `bool` predicate, not `{target.label}`"

/-- An error in the parts a run is made of. -/
inductive ConfigError where
  /-- A type of the catalog has no literal. -/
  | missingConstants (type : ValueType)
  /-- A literal was put into the bank of another type. -/
  | constantTypeMismatch (expected found : ValueType)
  /-- An operator declares another number of inputs than its builder takes. -/
  | arityMismatch (operator : String) (declared builder : Nat)
  /-- The node built from the declared inputs has no type. -/
  | illTypedOperator (operator : String) (reason : TypeError)
  /-- The node built from the declared inputs has another type than declared. -/
  | resultTypeMismatch (operator : String) (declared inferred : ValueType)
  /-- A row holds a value of another type than its column. -/
  | datasetTypeMismatch (row column : Nat) (expected found : ValueType)
  /-- A row has another number of values than there are columns. -/
  | datasetWidthMismatch (row expected found : Nat)
  /-- There is no entity of a type that rows are to be joined from. -/
  | emptySeedTable (type : ValueType)
  /-- A setting cannot be used. -/
  | invalidSetting (problem : SettingProblem)
  /-- A text does not describe settings. -/
  | malformedSettings
  /-- Settings cannot be written as a text. -/
  | unwritableSettings (reason : String)
  /-- There is no file of settings under the name. -/
  | missingFile (file : String)
  deriving DecidableEq, Repr

/-- What is said about an error. -/
def ConfigError.message : ConfigError → String
  | .missingConstants type =>
    s!"No constants are registered for type `{type.label}`, but the operator catalog uses it as " ++
      "an input or result type."
  | .constantTypeMismatch expected found =>
    s!"Cannot register a `{found.label}` constant in the `{expected.label}` constant bank."
  | .arityMismatch operator declared builder =>
    s!"Operator `{operator}` declares {declared} input type(s), but its build function takes " ++
      s!"{builder} operand(s)."
  | .illTypedOperator operator reason =>
    s!"Operator `{operator}` builds an ill-typed node from its declared inputs: {reason.message}"
  | .resultTypeMismatch operator declared inferred =>
    s!"Operator `{operator}` declares result type `{declared.label}`, but builds a " ++
      s!"`{inferred.label}` node."
  | .datasetTypeMismatch row column expected found =>
    s!"Column {column} of the dataset is declared `{expected.label}`, but row {row} holds a " ++
      s!"`{found.label}`."
  | .datasetWidthMismatch row expected found =>
    s!"Row {row} of the dataset holds {found} value(s) for {expected} column(s)."
  | .emptySeedTable type =>
    s!"The seed data has no `{type.label}` entity, so no row can be cross-joined for that source."
  | .invalidSetting problem => s!"Invalid setting `{problem.setting}`: {problem.reason}"
  | .malformedSettings => "Failed to parse run configuration."
  | .unwritableSettings reason => s!"Failed to serialize run configuration: {reason}"
  | .missingFile file =>
    s!"Failed to read run configuration '{file}': No such file or directory (os error 2)"

end QueryParity
