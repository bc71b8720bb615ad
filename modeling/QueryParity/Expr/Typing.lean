import QueryParity.Expr.Basic

/-!
# Types of trees

There is no implicit widening: an application has a type only if its operand types are exactly
those of a signature of the operator.
-/

namespace QueryParity

/-- Why a tree has no type. -/
inductive TypeError where
  /-- The operator has no signature for these operand types. -/
  | noSignature (operator : Operator) (operands : List ValueType)
  /-- The function was called with another number of arguments than it takes. -/
  | argumentCount (function : Func) (found : Nat)
  deriving DecidableEq, Repr

/-- What is said about a tree without a type. -/
def TypeError.message : TypeError → String
  | .noSignature operator operands =>
    s!"Operator `{operator.name}` is not defined for operand type(s) {ValueType.titles operands}."
  | .argumentCount function found =>
    s!"Function `{function.name}` takes {function.arity} argument(s), but was given {found}."

/-- Result type of a binary operator, if it has a signature for the operand types. -/
def BinaryOp.resultType (op : BinaryOp) (l r : ValueType) : Option ValueType :=
  match op with
  | .add | .subtract | .multiply | .divide | .modulo | .leftShift | .rightShift =>
    if l = .int ∧ r = .int then some .int else none
  | .and | .or | .andAlso | .orElse => if l = .bool ∧ r = .bool then some .bool else none
  | .equal | .notEqual => if l = r then some .bool else none
  | .lessThan | .lessThanOrEqual | .greaterThan | .greaterThanOrEqual =>
    if l = r ∧ (l = .int ∨ l = .dateTime) then some .bool else none

/-- Result type of a unary operator, if it has a signature for the operand type. -/
def UnaryOp.resultType (op : UnaryOp) (operand : ValueType) : Option ValueType :=
  match op, operand with
  | .not, .bool => some .bool
  | .not, .int => some .int
  | .negate, .int => some .int
  | .isNull, _ | .isNotNull, _ => some .bool
  | .convert .int, .bool => some .int
  | .convert .string, .int => some .string
  | .convert target, operand => if target = operand then some target else none
  | _, _ => none

/-- Result type of a function, if it has a signature for the argument types. -/
def Func.resultType (f : Func) (args : List ValueType) : Option ValueType :=
  match f, args with
  | .like, [.string, .string] => some .bool
  | .startsWith, [.string, .string] => some .bool
  | .endsWith, [.string, .string] => some .bool
  | .atTimeZone, [.dateTime, .string] => some .dateTime
  | _, _ => none

namespace Expr

/-- A signature's result, or the error that names the operator and its operand types. -/
def signature (operator : Operator) (operands : List ValueType) (result : Option ValueType) :
    Except TypeError ValueType :=
  match result with
  | some t => .ok t
  | none => .error (.noSignature operator operands)

mutual

/-- The type of a tree, or the first reason met on the way up why it has none. The number of
arguments of a call is checked before the arguments. -/
def infer : Expr → Except TypeError ValueType
  | .const v => .ok v.type
  | .root _ t => .ok t
  | .field _ t => .ok t
  | .binary op l r => do
    let lt ← infer l
    let rt ← infer r
    signature (.binary op) [lt, rt] (op.resultType lt rt)
  | .unary op a => do
    let t ← infer a
    signature (.unary op) [t] (op.resultType t)
  | .call f args =>
    if args.length = f.arity then do
      let ts ← inferAll args
      signature (.func f) ts (f.resultType ts)
    else .error (.argumentCount f args.length)

/-- The types of several trees, left to right. -/
def inferAll : List Expr → Except TypeError (List ValueType)
  | [] => .ok []
  | e :: es => do
    let t ← infer e
    let ts ← inferAll es
    .ok (t :: ts)

end

end Expr

end QueryParity
