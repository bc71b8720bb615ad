import QueryParity.ValueType

/-!
# Operators

The binary operators, unary operators and functions of the algebra, with their names and symbols.
-/

namespace QueryParity

/-- Binary operators. -/
inductive BinaryOp where
  | add
  | subtract
  | multiply
  | divide
  | modulo
  | leftShift
  | rightShift
  | and
  | or
  | andAlso
  | orElse
  | equal
  | notEqual
  | lessThan
  | lessThanOrEqual
  | greaterThan
  | greaterThanOrEqual
  deriving DecidableEq, Repr, Inhabited

namespace BinaryOp

/-- Every binary operator once. -/
def all : List BinaryOp :=
  [.add, .subtract, .multiply, .divide, .modulo, .leftShift, .rightShift, .and, .or, .andAlso,
    .orElse, .equal, .notEqual, .lessThan, .lessThanOrEqual, .greaterThan, .greaterThanOrEqual]

/-- No binary operator is missing from `all`. -/
@[simp] theorem mem_all (op : BinaryOp) : op ∈ all := by cases op <;> decide

/-- Name in messages and programs. -/
def name : BinaryOp → String
  | .add => "Add"
  | .subtract => "Subtract"
  | .multiply => "Multiply"
  | .divide => "Divide"
  | .modulo => "Modulo"
  | .leftShift => "LeftShift"
  | .rightShift => "RightShift"
  | .and => "And"
  | .or => "Or"
  | .andAlso => "AndAlso"
  | .orElse => "OrElse"
  | .equal => "Equal"
  | .notEqual => "NotEqual"
  | .lessThan => "LessThan"
  | .lessThanOrEqual => "LessThanOrEqual"
  | .greaterThan => "GreaterThan"
  | .greaterThanOrEqual => "GreaterThanOrEqual"

/-- Symbol between the operands in print. -/
def symbol : BinaryOp → String
  | .add => "+"
  | .subtract => "-"
  | .multiply => "*"
  | .divide => "/"
  | .modulo => "%"
  | .leftShift => "<<"
  | .rightShift => ">>"
  | .and => "&"
  | .or => "|"
  | .andAlso => "&&"
  | .orElse => "||"
  | .equal => "=="
  | .notEqual => "!="
  | .lessThan => "<"
  | .lessThanOrEqual => "<="
  | .greaterThan => ">"
  | .greaterThanOrEqual => ">="

/-- Whether the operator skips its right operand once the left one decides the result. -/
def isShortCircuit : BinaryOp → Bool
  | .andAlso | .orElse => true
  | _ => false

end BinaryOp

/-- Unary operators. -/
inductive UnaryOp where
  /-- Logical negation of booleans, bitwise complement of integers. -/
  | not
  | negate
  | isNull
  | isNotNull
  /-- Conversion, the only way in which a value changes its type. -/
  | convert (target : ValueType)
  deriving DecidableEq, Repr, Inhabited

/-- Every unary operator once. -/
def UnaryOp.all : List UnaryOp :=
  [.not, .negate, .isNull, .isNotNull] ++ ValueType.all.map .convert

/-- No unary operator is missing from `all`. -/
@[simp] theorem UnaryOp.mem_all (op : UnaryOp) : op ∈ all := by
  cases op <;> simp [all]

/-- Name in messages and programs; the target of a conversion is not part of it. -/
def UnaryOp.name : UnaryOp → String
  | .not => "Not"
  | .negate => "Negate"
  | .isNull => "IsNull"
  | .isNotNull => "IsNotNull"
  | .convert _ => "Convert"

/-- Functions applied by call nodes. -/
inductive Func where
  /-- Pattern match with the wildcards `%` and `_`. -/
  | like
  | startsWith
  | endsWith
  /-- A date-time seen from another zone; the instant is unchanged. -/
  | atTimeZone
  deriving DecidableEq, Repr, Inhabited

namespace Func

/-- Every function once. -/
def all : List Func := [.like, .startsWith, .endsWith, .atTimeZone]

/-- No function is missing from `all`. -/
@[simp] theorem mem_all (f : Func) : f ∈ all := by cases f <;> decide

/-- Name in calls, messages and programs. -/
def name : Func → String
  | .like => "Like"
  | .startsWith => "StartsWith"
  | .endsWith => "EndsWith"
  | .atTimeZone => "AtTimeZone"

/-- Number of arguments a function takes. -/
def arity : Func → Nat
  | .like | .startsWith | .endsWith | .atTimeZone => 2

end Func

/-- Anything that is applied to operands. -/
inductive Operator where
  | binary (op : BinaryOp)
  | unary (op : UnaryOp)
  | func (f : Func)
  deriving DecidableEq, Repr, Inhabited

/-- Name of an operator in messages. -/
def Operator.name : Operator → String
  | .binary op => op.name
  | .unary op => op.name
  | .func f => f.name

end QueryParity
