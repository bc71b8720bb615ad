import QueryParity.Program.Compile
import QueryParity.Proofs.Expr.Nodes
import QueryParity.Proofs.Outcome

/-!
# Emitted code

The compiler adds to one list of instructions and patches a jump when its target is there. What it
adds for a tree depends on the instructions before it only through their number, from which every
target can be told in advance: so the code of a tree stands on its own, with the number of its first
instruction as the only thing it needs to know.
-/

namespace QueryParity.Program

open Outcome

mutual

/-- The instructions of a tree, the first of which has the number `start`. -/
def emit (schema : List ValueType) : Expr → (start : Nat) → Except Fault (List Instr)
  | .const v, _ => .ok [.push v]
  | .root index _, _ => .error (.unboundRoot index)
  | .field column type, _ => do
    let instr ← loadField schema column type
    .ok [instr]
  | .binary op l r, start => do
    let left ← emit schema l start
    if op.isShortCircuit then do
      let right ← emit schema r (start + left.length + 1)
      let target := start + left.length + 1 + right.length + 1
      .ok (left ++ .jumpIfDecided op target :: (right ++ [.binary op]))
    else do
      let right ← emit schema r (start + left.length)
      .ok (left ++ (right ++ [.binary op]))
  | .unary op a, start => do
    let operand ← emit schema a start
    .ok (operand ++ [.unary op])
  | .call f args, start => do
    let operands ← emitAll schema args start
    .ok (operands ++ [.call f args.length])

/-- The instructions of several trees, one after the other. -/
def emitAll (schema : List ValueType) : List Expr → (start : Nat) → Except Fault (List Instr)
  | [], _ => .ok []
  | e :: es, start => do
    let first ← emit schema e start
    let rest ← emitAll schema es (start + first.length)
    .ok (first ++ rest)

end

variable {schema : List ValueType}

/-- Patching a jump changes the target of that jump only. -/
theorem modify_jump (before after : List Instr) (op : BinaryOp) (target : Nat) :
    (before ++ Instr.jumpIfDecided op unknownTarget :: after).modify before.length
        (Instr.retarget target) =
      before ++ .jumpIfDecided op target :: after := by
  rw [List.modify_eq_take_drop, List.take_left, List.drop_left]
  rfl

/-- The compiler adds the instructions of several trees to the code if it does so for each. -/
private theorem emitAllInto_eq {args : List Expr}
    (ih : ∀ a ∈ args, ∀ code, emitInto schema a code =
      emit schema a code.length >>= fun added => .ok (code ++ added)) (code : List Instr) :
    emitAllInto schema args code =
      emitAll schema args code.length >>= fun added => .ok (code ++ added) := by
  induction args generalizing code with
  | nil => exact congrArg Except.ok (List.append_nil code).symm
  | cons a args ihs =>
    rw [emitAllInto, emitAll, ih a List.mem_cons_self]
    cases emit schema a code.length with
    | error fault => rfl
    | ok first =>
      simp only [ok_bind]
      rw [ihs (fun b hb => ih b (List.mem_cons_of_mem _ hb)), List.length_append]
      cases emitAll schema args (code.length + first.length) with
      | error fault => rfl
      | ok rest => simp only [ok_bind, List.append_assoc]

/-- What the compiler adds to the code for a tree, its jumps patched, is the code of the tree. -/
theorem emitInto_eq (e : Expr) (code : List Instr) :
    emitInto schema e code =
      emit schema e code.length >>= fun added => .ok (code ++ added) := by
  induction e generalizing code with
  | const v => rfl
  | root i t => rfl
  | field c t =>
    rw [emitInto, emit]
    cases loadField schema c t with
    | error fault => rfl
    | ok instr => rfl
  | binary op l r ihl ihr =>
    rw [emitInto, emit, ihl]
    cases emit schema l code.length with
    | error fault => rfl
    | ok left =>
      simp only [ok_bind]
      split
      · -- the jump is there when the right operand is compiled
        have hjump : (code ++ left ++ [Instr.jumpIfDecided op unknownTarget]).length =
            code.length + left.length + 1 := by
          simp only [List.length_append, List.length_cons, List.length_nil]
        rw [ihr, hjump]
        cases emit schema r (code.length + left.length + 1) with
        | error fault => rfl
        | ok right =>
          have hcode : code ++ left ++ [Instr.jumpIfDecided op unknownTarget] ++ right ++
              [.binary op] = code ++ left ++ .jumpIfDecided op unknownTarget ::
                (right ++ [.binary op]) := by
            simp only [List.append_assoc, List.cons_append, List.nil_append]
          have hend : (code ++ left ++ Instr.jumpIfDecided op unknownTarget ::
              (right ++ [.binary op])).length =
                code.length + left.length + 1 + right.length + 1 := by
            simp only [List.length_append, List.length_cons, List.length_nil]
            omega
          simp only [ok_bind]
          rw [hcode, hend, modify_jump, List.append_assoc]
      · rw [ihr, List.length_append]
        cases emit schema r (code.length + left.length) with
        | error fault => rfl
        | ok right => simp only [ok_bind, List.append_assoc]
  | unary op a ih =>
    rw [emitInto, emit, ih]
    cases emit schema a code.length with
    | error fault => rfl
    | ok operand => simp only [ok_bind, List.append_assoc]
  | call f args ih =>
    rw [emitInto, emit, emitAllInto_eq ih]
    cases emitAll schema args code.length with
    | error fault => rfl
    | ok operands => simp only [ok_bind, List.append_assoc]

/-- A program is the code of its tree, the first instruction of which has the number zero. -/
theorem compile_eq (e : Expr) (schema : List ValueType) :
    compile e schema = emit schema e 0 >>= fun code => .ok ⟨code⟩ := by
  rw [compile, emitInto_eq]
  cases emit schema e 0 with
  | error fault => rfl
  | ok code => rfl

/-- The instructions of a compiled program are the code of its tree. -/
theorem emit_of_compile {e : Expr} {p : Program} (h : compile e schema = .ok p) :
    emit schema e 0 = .ok p.instrs := by
  rw [compile_eq] at h
  obtain ⟨code, hcode, hp⟩ := bind_eq_ok_iff.mp h
  cases hp
  exact hcode

end QueryParity.Program
