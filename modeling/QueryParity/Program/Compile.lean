import QueryParity.Fault
import QueryParity.Program.Basic

/-!
# Compilation of trees

Operands come before their operator. Between the operands of a short-circuit operator stands a
jump past the operator, taken when the left operand decides the result:

    <left operand>
    jump-if-decided op, end
    <right operand>
    binary op
  end:

The compiler adds to one list of instructions, and patches the jump when the end is reached.
Placeholders cannot be compiled, and every field must agree with the schema.
-/

namespace QueryParity.Program

/-- The load of a field, if the schema has a column of that number and type. -/
def loadField (schema : List ValueType) (column : Nat) (type : ValueType) : Except Fault Instr :=
  match schema[column]? with
  | none => .error (.columnOutOfRange column schema.length)
  | some declared =>
    if declared = type then .ok (.load column type)
    else .error (.typeMismatch .fieldAccess type declared)

/-- Where a jump leads until its target is known: further than any program is long. -/
def unknownTarget : Nat := 18446744073709551615

mutual

/-- Append the instructions of a tree to `code`. A jump is added before its target is known, and
patched when the code of the right operand and the operator are there. -/
def emitInto (schema : List ValueType) : Expr → (code : List Instr) → Except Fault (List Instr)
  | .const v, code => .ok (code ++ [.push v])
  | .root index _, _ => .error (.unboundRoot index)
  | .field column type, code => do
    let instr ← loadField schema column type
    .ok (code ++ [instr])
  | .binary op l r, code => do
    let code ← emitInto schema l code
    if op.isShortCircuit then do
      let jump := code.length
      let code ← emitInto schema r (code ++ [.jumpIfDecided op unknownTarget])
      let code := code ++ [.binary op]
      .ok (code.modify jump (Instr.retarget code.length))
    else do
      let code ← emitInto schema r code
      .ok (code ++ [.binary op])
  | .unary op a, code => do
    let code ← emitInto schema a code
    .ok (code ++ [.unary op])
  | .call f args, code => do
    let code ← emitAllInto schema args code
    .ok (code ++ [.call f args.length])

/-- Append the instructions of several trees, one after the other. -/
def emitAllInto (schema : List ValueType) :
    List Expr → (code : List Instr) → Except Fault (List Instr)
  | [], code => .ok code
  | e :: es, code => do
    let code ← emitInto schema e code
    emitAllInto schema es code

end

/-- The program of a tree for rows with the given column types. -/
def compile (e : Expr) (schema : List ValueType) : Except Fault Program := do
  let instrs ← emitInto schema e []
  .ok ⟨instrs⟩

end QueryParity.Program
