import QueryParity.ConfigError
import QueryParity.Query

/-!
# Settings of a run
-/

namespace QueryParity

/-- Settings of a run. -/
structure Config where
  /-- Seed from which the seeds of the iterations are drawn. -/
  seed : UInt64
  /-- Number of iterations. -/
  iterations : UInt64
  /-- Bound on the depth of trees. -/
  maxDepth : UInt64
  /-- Type of every tree. -/
  target : ValueType
  /-- Types of the root slots; a slot is bound to the column of the same number. -/
  rootTypes : List ValueType
  /-- How trees are queried. -/
  shape : QueryShape
  /-- A second operand is a literal once in so many draws on average. -/
  constantOperandOdds : UInt32
  deriving DecidableEq, Repr

namespace Config

/-- The settings that hold where nothing else is said. -/
def standard : Config where
  seed := 12345
  iterations := 100
  maxDepth := 3
  target := .bool
  rootTypes := [.string, .string, .int, .int, .bool, .bool]
  shape := .filter
  constantOperandOdds := 3

instance : Inhabited Config := ⟨standard⟩

/-- The first reason why no run can use the settings. -/
def problem? (c : Config) : Option SettingProblem :=
  if c.constantOperandOdds = 0 then some .zeroOdds
  else if c.rootTypes.isEmpty then some .noRootTypes
  else if indexLimit < c.rootTypes.length then some .tooManyRootTypes
  else if c.shape = .filter ∧ c.target ≠ .bool then some (.filterTarget c.target)
  else none

/-- Check that a run can use the settings. -/
def validate (c : Config) : Except ConfigError Unit :=
  match c.problem? with
  | some problem => .error (.invalidSetting problem)
  | none => .ok ()

/-- The settings of which a run can make use. -/
theorem validate_eq_ok_iff {c : Config} :
    c.validate = .ok () ↔
      c.constantOperandOdds ≠ 0 ∧ c.rootTypes ≠ [] ∧ c.rootTypes.length ≤ indexLimit ∧
        (c.shape = .filter → c.target = .bool) := by
  unfold validate problem?
  split
  · rename_i problem h
    simp only [reduceCtorEq, false_iff]
    grind
  · rename_i h
    simp only [true_iff]
    grind

end Config

end QueryParity
