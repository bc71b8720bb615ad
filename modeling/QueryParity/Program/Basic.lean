import QueryParity.Expr.Basic

/-!
# Programs

A program is a list of instructions for a stack machine. Its text has one numbered line per
instruction.
-/

namespace QueryParity

/-- An instruction of the stack machine. -/
inductive Instr where
  /-- Push a constant. -/
  | push (v : Value)
  /-- Push the value of a column of the current row. -/
  | load (column : Nat) (type : ValueType)
  /-- Replace the top value by the result of an operator. -/
  | unary (op : UnaryOp)
  /-- Replace the top two values, the right operand topmost, by the result of an operator. -/
  | binary (op : BinaryOp)
  /-- Replace the top `argc` values, the last argument topmost, by the result of a function. -/
  | call (f : Func) (argc : Nat)
  /-- Continue at instruction `target` if the top value decides the operator. -/
  | jumpIfDecided (op : BinaryOp) (target : Nat)
  deriving DecidableEq, Repr

/-- Text of an instruction. -/
def Instr.display : Instr → String
  | .push v => "push " ++ v.display
  | .load column type => s!"load e{column} : {type.label}"
  | .unary op => s!"unary {op.name}"
  | .binary op => s!"binary {op.name}"
  | .call f argc => s!"call {f.name}/{argc}"
  | .jumpIfDecided op target => s!"jump-if-decided {op.name}, {target}"

/-- The instruction with another target, if it is a jump. -/
def Instr.retarget (target : Nat) : Instr → Instr
  | .jumpIfDecided op _ => .jumpIfDecided op target
  | instr => instr

/-- A program of the stack machine. -/
structure Program where
  /-- The instructions, numbered from zero. -/
  instrs : List Instr
  deriving DecidableEq, Repr, Inhabited

namespace Program

/-- Number of instructions. -/
def length (p : Program) : Nat := p.instrs.length

/-- A number right-aligned in four columns. -/
def lineNumber (n : Nat) : String :=
  let digits := toString n
  String.ofList (List.replicate (4 - digits.length) ' ') ++ digits

/-- Text of a program. -/
def display (p : Program) : String :=
  String.join (p.instrs.zipIdx.map fun (instr, i) => lineNumber i ++ ": " ++ instr.display ++ "\n")

end Program

end QueryParity
