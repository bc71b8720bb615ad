import QueryParity.Expr.Basic

/-!
# Builders

One function per operator, so that trees read like the expressions they stand for and catalog
entries can name how they are built.
-/

namespace QueryParity.Expr

/-- A null of the given type. -/
def null (type : ValueType) : Expr := .const (.null type)

/-- An integer literal. -/
def intLit (n : Int32) : Expr := .const (.int n)

/-- A boolean literal. -/
def boolLit (b : Bool) : Expr := .const (.bool b)

/-- A string literal. -/
def stringLit (s : String) : Expr := .const (.string s)

/-- Sum. -/
def add (l r : Expr) : Expr := .binary .add l r

/-- Difference. -/
def subtract (l r : Expr) : Expr := .binary .subtract l r

/-- Product. -/
def multiply (l r : Expr) : Expr := .binary .multiply l r

/-- Quotient. -/
def divide (l r : Expr) : Expr := .binary .divide l r

/-- Remainder. -/
def modulo (l r : Expr) : Expr := .binary .modulo l r

/-- Left shift. -/
def leftShift (l r : Expr) : Expr := .binary .leftShift l r

/-- Right shift. -/
def rightShift (l r : Expr) : Expr := .binary .rightShift l r

/-- Arithmetic negation. -/
def negate (a : Expr) : Expr := .unary .negate a

/-- Conjunction that evaluates both operands. -/
def and (l r : Expr) : Expr := .binary .and l r

/-- Disjunction that evaluates both operands. -/
def or (l r : Expr) : Expr := .binary .or l r

/-- Conjunction that skips its right operand when the left one is false. -/
def andAlso (l r : Expr) : Expr := .binary .andAlso l r

/-- Disjunction that skips its right operand when the left one is true. -/
def orElse (l r : Expr) : Expr := .binary .orElse l r

/-- Logical negation or bitwise complement. -/
def not (a : Expr) : Expr := .unary .not a

/-- Equality. -/
def equal (l r : Expr) : Expr := .binary .equal l r

/-- Inequality. -/
def notEqual (l r : Expr) : Expr := .binary .notEqual l r

/-- Strictly less. -/
def lessThan (l r : Expr) : Expr := .binary .lessThan l r

/-- Less or equal. -/
def lessThanOrEqual (l r : Expr) : Expr := .binary .lessThanOrEqual l r

/-- Strictly greater. -/
def greaterThan (l r : Expr) : Expr := .binary .greaterThan l r

/-- Greater or equal. -/
def greaterThanOrEqual (l r : Expr) : Expr := .binary .greaterThanOrEqual l r

/-- Null test. -/
def isNull (a : Expr) : Expr := .unary .isNull a

/-- Negated null test. -/
def isNotNull (a : Expr) : Expr := .unary .isNotNull a

/-- Conversion to a type. -/
def convert (target : ValueType) (a : Expr) : Expr := .unary (.convert target) a

/-- Wildcard match of `input` against `pattern`. -/
def like (input pattern : Expr) : Expr := .call .like [input, pattern]

/-- Whether `input` begins with `start`. -/
def startsWith (input start : Expr) : Expr := .call .startsWith [input, start]

/-- Whether `input` ends with `tail`. -/
def endsWith (input tail : Expr) : Expr := .call .endsWith [input, tail]

/-- A date-time seen from a zone. -/
def atTimeZone (input zone : Expr) : Expr := .call .atTimeZone [input, zone]

/-- A date-time seen from UTC. -/
def atUtc (input : Expr) : Expr := atTimeZone input (stringLit "UTC")

end QueryParity.Expr
