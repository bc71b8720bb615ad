import QueryParity.Column
import QueryParity.Program.Basic
import QueryParity.Semantics

/-!
# Execution of programs

The machine clears its stack and runs to the end of the program or to the first fault. The jumps of
a compiled program only lead forward, so every step leaves fewer instructions, and what is left of
the program stands for the place in it. The stack outlives the run: what a fault leaves on it is
still there when the next program starts.
-/

namespace QueryParity.Program

/-- Run the instructions `code`, the first of which has the number `index`. The result is the fault
that ended the run, if there is one, and the stack that is left, top first. A jump goes to its
target if this lies ahead, as `LeadsForward.run_of_trace` has it, and to the next instruction
otherwise. -/
def run (columns : List Column) (row : Nat) (code : List Instr) (index : Nat)
    (stack : List Value) : Except Fault Unit × List Value :=
  match code with
  | [] => (.ok (), stack)
  | instr :: rest =>
    match instr with
    | .push v => run columns row rest (index + 1) (v :: stack)
    | .load column type =>
      match Column.readField columns column type row with
      | .error fault => (.error fault, stack)
      | .ok v => run columns row rest (index + 1) (v :: stack)
    | .unary op =>
      match stack with
      | [] => (.error (.stackUnderflow index), [])
      | a :: stack =>
        match op.apply a with
        | .error fault => (.error fault, stack)
        | .ok v => run columns row rest (index + 1) (v :: stack)
    | .binary op =>
      match stack with
      | b :: a :: stack =>
        match op.apply a b with
        | .error fault => (.error fault, stack)
        | .ok v => run columns row rest (index + 1) (v :: stack)
      | _ => (.error (.stackUnderflow index), [])
    | .call f argc =>
      if stack.length < argc then (.error (.stackUnderflow index), stack)
      else
        match f.apply (stack.take argc).reverse with
        | .error fault => (.error fault, stack.drop argc)
        | .ok v => run columns row rest (index + 1) (v :: stack.drop argc)
    | .jumpIfDecided op target =>
      match stack with
      | [] => (.error (.stackUnderflow index), [])
      | top :: _ =>
        if op.decides top then
          run columns row (rest.drop (target - (index + 1))) (max target (index + 1)) stack
        else run columns row rest (index + 1) stack
termination_by code.length
decreasing_by
  all_goals
    simp only [List.length_cons, List.length_drop]
    omega

/-- The stack with which every run starts, whatever is left from the run before. -/
def cleared (_scratch : List Value) : List Value := []

/-- The value that a program leaves on top of the stack, and the stack below it. The machine works
on `scratch`, which it clears first. -/
def execute (p : Program) (columns : List Column) (row : Nat) (scratch : List Value) :
    Except Fault Value × List Value :=
  match run columns row p.instrs 0 (cleared scratch) with
  | (.error fault, stack) => (.error fault, stack)
  | (.ok (), v :: stack) => (.ok v, stack)
  | (.ok (), []) => (.error (.stackUnderflow p.length), [])

end QueryParity.Program
