import QueryParity.Program.Execute

/-!
# The machine, one instruction at a time

A state of the machine is the number of the next instruction and the stack. An instruction that
finds its operands takes them off the stack and leaves one value, or it faults; a jump looks at one
value and leaves it. If no jump of a program leads back or beyond its end, a run of the program is a
sequence of such steps, and it carries out no instruction twice.
-/

namespace QueryParity

namespace Instr

/-- How many values an instruction needs on the stack. -/
def operands : Instr → Nat
  | .push _ | .load _ _ => 0
  | .unary _ | .jumpIfDecided _ _ => 1
  | .binary _ => 2
  | .call _ argc => argc

/-- The height of the stack after an instruction: one value stands in the place of the operands. -/
def heightAfter (instr : Instr) (height : Nat) : Nat := height - instr.operands + 1

/-- The instructions that may follow an instruction, whatever the values are. -/
def successors (index : Nat) : Instr → List Nat
  | .jumpIfDecided _ target => [index + 1, target]
  | _ => [index + 1]

end Instr

namespace Program

/-- A state of the machine. -/
structure State where
  /-- Number of the next instruction. -/
  index : Nat
  /-- The stack, top first. -/
  stack : List Value
  deriving DecidableEq, Repr

/-- What becomes of a state when an instruction is carried out. -/
inductive Transition where
  /-- The machine goes on. -/
  | next (s : State)
  /-- A field or an operator has no value; so much stays on the stack. -/
  | fault (f : Fault) (left : List Value)
  /-- The operands are not on the stack; so much stays on it. -/
  | underflow (left : List Value)
  deriving DecidableEq, Repr

/-- A result goes on top of the stack, before the next instruction. -/
def Transition.ofResult (index : Nat) (stack : List Value) : Except Fault Value → Transition
  | .ok v => .next ⟨index + 1, v :: stack⟩
  | .error f => .fault f stack

/-- Carry out an instruction. -/
def perform (columns : List Column) (row : Nat) (instr : Instr) (s : State) : Transition :=
  match instr, s.stack with
  | .push v, stack => .next ⟨s.index + 1, v :: stack⟩
  | .load column type, stack => .ofResult s.index stack (Column.readField columns column type row)
  | .unary op, a :: stack => .ofResult s.index stack (op.apply a)
  | .binary op, b :: a :: stack => .ofResult s.index stack (op.apply a b)
  | .call f argc, stack =>
    if stack.length < argc then .underflow stack
    else .ofResult s.index (stack.drop argc) (f.apply (stack.take argc).reverse)
  | .jumpIfDecided op target, top :: stack =>
    .next ⟨if op.decides top then target else s.index + 1, top :: stack⟩
  | _, _ => .underflow []

/-- The states that a program reaches on a row, and how many instructions are carried out before. -/
inductive Trace (p : Program) (columns : List Column) (row : Nat) : Nat → State → Prop where
  /-- Before the first instruction the stack is empty. -/
  | start : Trace p columns row 0 ⟨0, []⟩
  /-- An instruction is carried out. -/
  | step {n : Nat} {s s' : State} {instr : Instr} : Trace p columns row n s →
      p.instrs[s.index]? = some instr → perform columns row instr s = .next s' →
      Trace p columns row (n + 1) s'

/-- The ways through a program: how many instructions lie behind, which one comes next, and how high
the stack is. At a jump both ways are open. -/
inductive Path (p : Program) : Nat → Nat → Nat → Prop where
  /-- Before the first instruction the stack is empty. -/
  | start : Path p 0 0 0
  /-- An instruction lies behind. -/
  | step {n index height next : Nat} {instr : Instr} : Path p n index height →
      p.instrs[index]? = some instr → next ∈ instr.successors index →
      Path p (n + 1) next (instr.heightAfter height)

/-- How an execution ends, after how many instructions, and with what on the stack: behind the last
instruction with the value on top, or at an instruction that faults. -/
inductive Ends (p : Program) (columns : List Column) (row : Nat) :
    Nat → Except Fault Value × List Value → Prop where
  /-- No instruction is left. -/
  | value {n : Nat} {s : State} {v : Value} {left : List Value} : Trace p columns row n s →
      s.index = p.length → s.stack = v :: left → Ends p columns row n (.ok v, left)
  /-- An instruction faults. -/
  | fault {n : Nat} {s : State} {instr : Instr} {f : Fault} {left : List Value} :
      Trace p columns row n s → p.instrs[s.index]? = some instr →
      perform columns row instr s = .fault f left → Ends p columns row (n + 1) (.error f, left)

variable {p : Program} {columns : List Column} {row n : Nat} {s s' : State} {instr : Instr}

/-- A result goes on the stack, or it is a fault. -/
theorem Transition.ofResult_cases (index : Nat) (stack : List Value) (result : Except Fault Value) :
    (∃ v, ofResult index stack result = .next ⟨index + 1, v :: stack⟩) ∨
      ∃ f, ofResult index stack result = .fault f stack := by
  cases result with
  | ok v => exact .inl ⟨v, rfl⟩
  | error f => exact .inr ⟨f, rfl⟩

/-- What becomes of a state if the operands are there: the machine goes on with one value in the
place of the operands, or the instruction faults. -/
inductive Advances (instr : Instr) (s : State) : Transition → Prop where
  /-- The machine goes on. -/
  | next {s' : State} : s'.index ∈ instr.successors s.index →
      s'.stack.length = instr.heightAfter s.stack.length → Advances instr s (.next s')
  /-- The instruction faults. -/
  | fault (f : Fault) (left : List Value) : Advances instr s (.fault f left)

/-- What comes of a result that takes the place of the operands. -/
theorem Advances.ofResult {stack : List Value} (hnext : instr.successors s.index = [s.index + 1])
    (hlength : stack.length + 1 = instr.heightAfter s.stack.length)
    (result : Except Fault Value) : Advances instr s (.ofResult s.index stack result) := by
  obtain ⟨v, hv⟩ | ⟨f, hf⟩ := Transition.ofResult_cases s.index stack result
  · rw [hv]
    refine .next ?_ hlength
    rw [hnext]
    exact List.mem_singleton.mpr rfl
  · rw [hf]
    exact .fault f stack

/-- An instruction underflows exactly if its operands are not on the stack; otherwise the machine
goes on, or the instruction faults. -/
theorem perform_cases (columns : List Column) (row : Nat) (instr : Instr) (s : State) :
    (s.stack.length < instr.operands ∧
      ∃ left, perform columns row instr s = .underflow left) ∨
    (instr.operands ≤ s.stack.length ∧ Advances instr s (perform columns row instr s)) := by
  obtain ⟨index, stack⟩ := s
  cases instr with
  | push v => exact .inr ⟨Nat.zero_le _, .next List.mem_cons_self rfl⟩
  | load column type => exact .inr ⟨Nat.zero_le _, .ofResult rfl rfl _⟩
  | unary op =>
    cases stack with
    | nil => exact .inl ⟨Nat.one_pos, [], rfl⟩
    | cons a stack => exact .inr ⟨Nat.le_add_left 1 _, .ofResult rfl rfl _⟩
  | binary op =>
    match stack with
    | [] => exact .inl ⟨Nat.two_pos, [], rfl⟩
    | [_] => exact .inl ⟨Nat.one_lt_two, [], rfl⟩
    | b :: a :: stack => exact .inr ⟨Nat.le_add_left 2 _, .ofResult rfl rfl _⟩
  | call f argc =>
    by_cases hlength : stack.length < argc
    · exact .inl ⟨hlength, stack, if_pos hlength⟩
    · rw [perform, if_neg hlength]
      exact .inr ⟨Nat.le_of_not_lt hlength,
        .ofResult rfl (congrArg (· + 1) List.length_drop) _⟩
  | jumpIfDecided op target =>
    cases stack with
    | nil => exact .inl ⟨Nat.one_pos, [], rfl⟩
    | cons top stack =>
      refine .inr ⟨Nat.le_add_left 1 _, .next ?_ rfl⟩
      cases op.decides top with
      | true => exact List.mem_cons_of_mem _ List.mem_cons_self
      | false => exact List.mem_cons_self

/-- Where the machine goes on, the operands were there. -/
theorem advances_of_next (h : perform columns row instr s = .next s') :
    instr.operands ≤ s.stack.length ∧ s'.index ∈ instr.successors s.index ∧
      s'.stack.length = instr.heightAfter s.stack.length := by
  obtain ⟨-, left, hunder⟩ | ⟨hoperands, hadvances⟩ := perform_cases columns row instr s
  · rw [hunder] at h
    cases h
  · rw [h] at hadvances
    cases hadvances with
    | next hindex hlength => exact ⟨hoperands, hindex, hlength⟩

/-- Every run takes one of the ways through the program. -/
theorem Trace.path (h : Trace p columns row n s) : Path p n s.index s.stack.length := by
  induction h with
  | start => exact .start
  | step _ hat hnext ih =>
    obtain ⟨-, hindex, hlength⟩ := advances_of_next hnext
    rw [hlength]
    exact .step ih hat hindex

/-- No jump of a program leads back, or beyond its end. -/
def LeadsForward (p : Program) : Prop :=
  ∀ j op target, p.instrs[j]? = some (.jumpIfDecided op target) → j < target ∧ target ≤ p.length

/-- Every instruction that may follow comes later, and not after the end. -/
theorem LeadsForward.successor (h : p.LeadsForward) {index next : Nat}
    (hat : p.instrs[index]? = some instr) (hnext : next ∈ instr.successors index) :
    index < next ∧ next ≤ p.length := by
  have hindex : index < p.length := (List.getElem?_eq_some_iff.mp hat).1
  have hone : index < index + 1 ∧ index + 1 ≤ p.length := ⟨Nat.lt_succ_self _, hindex⟩
  cases instr with
  | jumpIfDecided op target =>
    obtain rfl | hnext := List.mem_cons.mp hnext
    · exact hone
    · rw [List.mem_singleton.mp hnext]
      exact h _ _ _ hat
  | _ =>
    rw [List.mem_singleton.mp hnext]
    exact hone

/-- A way through the program passes every instruction at most once, and ends with the program. -/
theorem LeadsForward.path_le (h : p.LeadsForward) {index height : Nat}
    (hpath : Path p n index height) : n ≤ index ∧ index ≤ p.length := by
  induction hpath with
  | start => exact ⟨Nat.le_refl 0, Nat.zero_le _⟩
  | step _ hat hnext ih =>
    obtain ⟨hlt, hle⟩ := h.successor hat hnext
    exact ⟨Nat.succ_le_of_lt (Nat.lt_of_le_of_lt ih.1 hlt), hle⟩

/-- How a run goes on after an instruction. -/
def Transition.continue (columns : List Column) (row index : Nat) (rest : List Instr) :
    Transition → Except Fault Unit × List Value
  | .next s => run columns row (rest.drop (s.index - (index + 1))) (max s.index (index + 1)) s.stack
  | .fault f left => (.error f, left)
  | .underflow left => (.error (.stackUnderflow index), left)

/-- A result is put on the stack, and the run goes on with the next instruction. -/
theorem Transition.continue_ofResult (index : Nat) (rest : List Instr) (stack : List Value)
    (result : Except Fault Value) :
    (ofResult index stack result).continue columns row index rest =
      match result with
      | .error f => (.error f, stack)
      | .ok v => run columns row rest (index + 1) (v :: stack) := by
  cases result with
  | error f => rfl
  | ok v => simp only [ofResult, Transition.continue, Nat.sub_self, List.drop_zero, Nat.max_self]

/-- A run begins by carrying out its first instruction. -/
theorem run_cons (columns : List Column) (row : Nat) (instr : Instr) (rest : List Instr)
    (index : Nat) (stack : List Value) :
    run columns row (instr :: rest) index stack =
      (perform columns row instr ⟨index, stack⟩).continue columns row index rest := by
  cases instr with
  | push v =>
    rw [run]
    simp only [perform, Transition.continue, Nat.sub_self, List.drop_zero, Nat.max_self]
  | load column type =>
    rw [run]
    exact (Transition.continue_ofResult index rest stack _).symm
  | unary op =>
    cases stack with
    | nil =>
      rw [run]
      rfl
    | cons a stack =>
      rw [run]
      exact (Transition.continue_ofResult index rest stack _).symm
  | binary op =>
    rcases stack with _ | ⟨b, _ | ⟨a, stack⟩⟩
    · rw [run]
      · rfl
      · intro b a stack hstack
        cases hstack
    · rw [run]
      · rfl
      · intro b a stack hstack
        cases hstack
    · rw [run]
      exact (Transition.continue_ofResult index rest stack _).symm
  | call f argc =>
    rw [run]
    by_cases hlength : stack.length < argc
    · simp only [perform, if_pos hlength, Transition.continue]
    · simp only [perform, if_neg hlength]
      exact (Transition.continue_ofResult index rest (stack.drop argc) _).symm
  | jumpIfDecided op target =>
    cases stack with
    | nil =>
      rw [run]
      rfl
    | cons top stack =>
      rw [run]
      cases hdecides : op.decides top <;>
        simp [perform, Transition.continue, hdecides]

/-- A run of a program whose jumps lead forward goes on at the next state. -/
theorem LeadsForward.run_of_next (h : p.LeadsForward) (hat : p.instrs[s.index]? = some instr)
    (hnext : perform columns row instr s = .next s') :
    run columns row (p.instrs.drop s.index) s.index s.stack =
      run columns row (p.instrs.drop s'.index) s'.index s'.stack := by
  obtain ⟨-, hindex, -⟩ := advances_of_next hnext
  obtain ⟨hlt, -⟩ := h.successor hat hindex
  obtain ⟨hlength, hget⟩ := List.getElem?_eq_some_iff.mp hat
  have hmax : max s'.index (s.index + 1) = s'.index := Nat.max_eq_left hlt
  have hskip : s.index + 1 + (s'.index - (s.index + 1)) = s'.index := by omega
  have hcons := run_cons columns row instr (p.instrs.drop (s.index + 1)) s.index s.stack
  rw [List.drop_eq_getElem_cons hlength, hget, hcons, hnext, Transition.continue, List.drop_drop,
    hmax, hskip]

/-- A run of a program whose jumps lead forward passes through the states that the program
reaches. -/
theorem LeadsForward.run_of_trace (h : p.LeadsForward) (htrace : Trace p columns row n s) :
    run columns row p.instrs 0 [] = run columns row (p.instrs.drop s.index) s.index s.stack := by
  induction htrace with
  | start => rfl
  | step _ hat hnext ih => exact ih.trans (h.run_of_next hat hnext)

/-- If no jump of a program leads back, it reaches its end or an instruction where it does not go
on. -/
theorem LeadsForward.exists_last (h : p.LeadsForward) (htrace : Trace p columns row n s) :
    ∃ m last, Trace p columns row m last ∧
      (last.index = p.length ∨ ∃ instr, p.instrs[last.index]? = some instr ∧
        ∀ s', perform columns row instr last ≠ .next s') := by
  -- every instruction brings the machine nearer to the end of the program
  induction hdistance : p.length - s.index using Nat.strongRecOn generalizing n s with
  | ind distance ih =>
    have hle : s.index ≤ p.length := (h.path_le htrace.path).2
    obtain hend | hlt := Nat.eq_or_lt_of_le hle
    · exact ⟨n, s, htrace, .inl hend⟩
    · have hat : p.instrs[s.index]? = some p.instrs[s.index] := List.getElem?_eq_getElem hlt
      by_cases hstuck : ∃ s', perform columns row p.instrs[s.index] s = .next s'
      · obtain ⟨s', hnext⟩ := hstuck
        obtain ⟨-, hindex, -⟩ := advances_of_next hnext
        obtain ⟨hforward, -⟩ := h.successor hat hindex
        exact ih (p.length - s'.index) (by omega) (.step htrace hat hnext) rfl
      · exact ⟨n, s, htrace, .inr ⟨_, hat, fun s' hnext => hstuck ⟨s', hnext⟩⟩⟩

end Program

end QueryParity
