import QueryParity.Expr.Basic
import QueryParity.Semantics

/-!
# Evaluation of trees

Trees are evaluated directly against the values of one row, operands from left to right. A
short-circuit operator skips its right operand once the left one decides the result.
-/

namespace QueryParity.Expr

mutual

/-- The value of a tree on a row, or the first fault. -/
def evaluate (row : List Value) : Expr → Except Fault Value
  | .const v => .ok v
  | .root index _ => .error (.unboundRoot index)
  | .field column _ =>
    match row[column]? with
    | some v => .ok v
    | none => .error (.columnOutOfRange column row.length)
  | .binary op l r => do
    let a ← evaluate row l
    if op.decides a then .ok a
    else do
      let b ← evaluate row r
      op.apply a b
  | .unary op a => do
    let v ← evaluate row a
    op.apply v
  | .call f args => do
    let vs ← evaluateAll row args
    f.apply vs

/-- The values of several trees on a row, or the first fault. -/
def evaluateAll (row : List Value) : List Expr → Except Fault (List Value)
  | [] => .ok []
  | e :: es => do
    let v ← evaluate row e
    let vs ← evaluateAll row es
    .ok (v :: vs)

end

end QueryParity.Expr
