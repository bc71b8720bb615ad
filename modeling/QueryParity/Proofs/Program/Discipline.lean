import QueryParity.Proofs.Expr.Acceptance
import QueryParity.Proofs.Expr.Walk
import QueryParity.Proofs.Program.Correctness
import QueryParity.Proofs.Program.Machine

/-!
# Stack discipline of compiled programs

The code of a tree finds the operands of every instruction on the stack and leaves the stack one
value higher than it was, whatever lies below. A jump skips the code of a right operand and the
operator behind it, and these together leave the stack as high as the jump found it: so the height
before an instruction is the same on every way that leads there, and can be read off the program. A
compiled program has one instruction for every node of its tree, and a jump for every short-circuit
operator.
-/

namespace QueryParity

open Outcome

namespace Program

/-- The height of the stack after instructions that are carried out one after the other. -/
def rise (code : List Instr) (height : Nat) : Nat :=
  code.foldl (fun height instr => instr.heightAfter height) height

/-- The height of the stack before an instruction of a program, as if no jump were taken. -/
def heightBefore (p : Program) (index : Nat) : Nat := rise (p.instrs.take index) 0

/-- Every instruction finds its operands if all are carried out one after the other. -/
def Supplied : (height : Nat) → List Instr → Prop
  | _, [] => True
  | height, instr :: rest => instr.operands ≤ height ∧ Supplied (instr.heightAfter height) rest

/-- The jump at an index of a program belongs to a short-circuit operator of a tree: the code of the
left operand ends before it, the code of the right operand and the operator follow, and the target
is just behind these. -/
def Skips (schema : List ValueType) (e : Expr) (instrs : List Instr) (index : Nat) (op : BinaryOp)
    (target : Nat) : Prop :=
  ∃ l r before left right after, .binary op l r ∈ e.preorder ∧ op.isShortCircuit = true ∧
    emit schema l before.length = .ok left ∧ emit schema r (index + 1) = .ok right ∧
    instrs = before ++ (left ++ .jumpIfDecided op target :: (right ++ .binary op :: after)) ∧
    index = before.length + left.length ∧ target = index + 1 + (right.length + 1)

variable {schema : List ValueType} {e : Expr} {code : List Instr} {start : Nat}

theorem rise_append (first second : List Instr) (height : Nat) :
    rise (first ++ second) height = rise second (rise first height) :=
  List.foldl_append

theorem supplied_append {first second : List Instr} {height : Nat} :
    Supplied height (first ++ second) ↔
      Supplied height first ∧ Supplied (rise first height) second := by
  induction first generalizing height with
  | nil => exact ⟨fun h => ⟨trivial, h⟩, fun h => h.2⟩
  | cons instr first ih =>
    rw [List.cons_append, Supplied, Supplied, ih, and_assoc]
    rfl

/-- Code that finds its operands above any height, and leaves the stack higher by `count`. -/
def Lifts (count : Nat) (code : List Instr) : Prop :=
  ∀ height, Supplied height code ∧ rise code height = height + count

theorem Lifts.append {first second : List Instr} {m n : Nat} (hfirst : Lifts m first)
    (hsecond : Lifts n second) : Lifts (m + n) (first ++ second) := by
  intro height
  rw [supplied_append, rise_append, (hfirst height).2, (hsecond _).2, Nat.add_assoc]
  exact ⟨⟨(hfirst height).1, (hsecond _).1⟩, rfl⟩

/-- An instruction puts one value in the place of its operands. -/
theorem Lifts.concat {instr : Instr} {n : Nat} (h : Lifts (instr.operands + n) code) :
    Lifts (n + 1) (code ++ [instr]) := by
  intro height
  rw [supplied_append, rise_append, (h height).2]
  refine ⟨⟨(h height).1, by omega, trivial⟩, ?_⟩
  change height + (instr.operands + n) - instr.operands + 1 = _
  omega

/-- Induction on emitted code, with one case for every kind of node and two for the arguments of a
call. -/
theorem emit_induction {motive : Expr → Nat → List Instr → Prop}
    {motiveAll : List Expr → Nat → List Instr → Prop}
    (const : ∀ v start, motive (.const v) start [.push v])
    (field : ∀ c t start, motive (.field c t) start [.load c t])
    (skipping : ∀ op l r start left right, op.isShortCircuit = true →
      emit schema l start = .ok left → emit schema r (start + left.length + 1) = .ok right →
      motive l start left → motive r (start + left.length + 1) right →
      motive (.binary op l r) start (left ++
        .jumpIfDecided op (start + left.length + 1 + right.length + 1) :: (right ++ [.binary op])))
    (binary : ∀ op l r start left right, op.isShortCircuit = false →
      motive l start left → motive r (start + left.length) right →
      motive (.binary op l r) start (left ++ (right ++ [.binary op])))
    (unary : ∀ op a start operand, motive a start operand →
      motive (.unary op a) start (operand ++ [.unary op]))
    (call : ∀ f args start operands, motiveAll args start operands →
      motive (.call f args) start (operands ++ [.call f args.length]))
    (nil : ∀ start, motiveAll [] start [])
    (cons : ∀ a args start first more, motive a start first →
      motiveAll args (start + first.length) more → motiveAll (a :: args) start (first ++ more))
    (h : emit schema e start = .ok code) : motive e start code := by
  induction e generalizing start code with
  | const v =>
    cases h
    exact const v start
  | root i t => cases h
  | field c t =>
    obtain ⟨-, rfl⟩ := emit_field_eq_ok h
    exact field c t start
  | binary op l r ihl ihr =>
    obtain ⟨left, hleft, h⟩ := bind_eq_ok_iff.mp h
    by_cases hshort : op.isShortCircuit = true
    · rw [if_pos hshort] at h
      obtain ⟨right, hright, h⟩ := bind_eq_ok_iff.mp h
      cases h
      exact skipping op l r start left right hshort hleft hright (ihl hleft) (ihr hright)
    · rw [if_neg hshort] at h
      obtain ⟨right, hright, h⟩ := bind_eq_ok_iff.mp h
      cases h
      exact binary op l r start left right (Bool.eq_false_iff.mpr hshort) (ihl hleft) (ihr hright)
  | unary op a ih =>
    obtain ⟨operand, hoperand, h⟩ := bind_eq_ok_iff.mp h
    cases h
    exact unary op a start operand (ih hoperand)
  | call f args ih =>
    obtain ⟨operands, hoperands, h⟩ := bind_eq_ok_iff.mp h
    cases h
    clear h
    refine call f args start operands ?_
    induction args generalizing start operands with
    | nil =>
      cases hoperands
      exact nil start
    | cons a args ihs =>
      obtain ⟨first, hfirst, hoperands⟩ := bind_eq_ok_iff.mp hoperands
      obtain ⟨more, hmore, hoperands⟩ := bind_eq_ok_iff.mp hoperands
      cases hoperands
      rw [List.forall_mem_cons] at ih
      exact cons a args start first more (ih.1 hfirst) (ihs ih.2 more hmore)

/-- The code of a tree finds its operands above any height and leaves one more value there. -/
theorem lifts_emit (h : emit schema e start = .ok code) : Lifts 1 code := by
  have hleaf (instr : Instr) (hnone : instr.operands = 0) : Lifts 1 [instr] :=
    have hempty : Lifts (instr.operands + 0) [] := fun height => ⟨trivial, by rw [hnone]; rfl⟩
    hempty.concat
  refine @emit_induction schema e code start (fun _ _ code => Lifts 1 code)
    (fun args _ code => Lifts args.length code) ?const ?field ?skipping ?binary ?unary ?call ?nil
    ?cons h
  case const => exact fun v _ => hleaf (.push v) rfl
  case field => exact fun c t _ => hleaf (.load c t) rfl
  case skipping =>
    intro op l r start left right _ _ _ hleft hright
    have hjump (target : Nat) : Lifts 1 (left ++ [.jumpIfDecided op target]) :=
      Lifts.concat (n := 0) hleft
    have hall (target : Nat) : Lifts 1 (_ ++ [Instr.binary op]) :=
      Lifts.concat (n := 0) ((hjump target).append hright)
    simpa only [List.append_assoc, List.cons_append, List.nil_append] using hall _
  case binary =>
    intro op l r start left right _ hleft hright
    rw [← List.append_assoc]
    exact Lifts.concat (n := 0) (hleft.append hright)
  case unary => exact fun op a start operand hoperand => Lifts.concat (n := 0) hoperand
  case call => exact fun f args start operands hoperands => Lifts.concat (n := 0) hoperands
  case nil => exact fun start height => ⟨trivial, rfl⟩
  case cons =>
    intro a args start first more hfirst hmore
    rw [List.length_cons, Nat.add_comm]
    exact hfirst.append hmore

/-- The code of a tree has one instruction for every node, and one more for every short-circuit
operator. -/
theorem length_emit (h : emit schema e start = .ok code) :
    code.length = e.size + e.preorder.countP Expr.skips := by
  refine @emit_induction schema e code start
    (fun e _ code => code.length = e.size + e.preorder.countP Expr.skips)
    (fun args _ code =>
      code.length = Expr.sizeAll args + (Expr.preorderAll args).countP Expr.skips)
    ?const ?field ?skipping ?binary ?unary ?call ?nil ?cons h
  case const => exact fun v _ => rfl
  case field => exact fun c t _ => rfl
  case skipping =>
    intro op l r start left right hshort _ _ hleft hright
    have hskips : Expr.skips (.binary op l r) = true := hshort
    rw [Expr.size, Expr.preorder, List.countP_cons_of_pos hskips, List.countP_append]
    simp only [List.length_append, List.length_cons, List.length_nil, hleft, hright]
    omega
  case binary =>
    intro op l r start left right hshort hleft hright
    have hskips : ¬ Expr.skips (.binary op l r) = true := Bool.eq_false_iff.mp hshort
    rw [Expr.size, Expr.preorder, List.countP_cons_of_neg hskips, List.countP_append]
    simp only [List.length_append, List.length_cons, List.length_nil, hleft, hright]
    omega
  case unary =>
    intro op a start operand hoperand
    rw [List.length_append, hoperand, Expr.size, Expr.preorder,
      List.countP_cons_of_neg Bool.false_ne_true, List.length_singleton]
    omega
  case call =>
    intro f args start operands hoperands
    rw [List.length_append, hoperands, Expr.size, Expr.preorder,
      List.countP_cons_of_neg Bool.false_ne_true, List.length_singleton]
    omega
  case nil => exact fun start => rfl
  case cons =>
    intro a args start first more hfirst hmore
    rw [List.length_append, hfirst, hmore, Expr.sizeAll, Expr.preorderAll, List.countP_append]
    omega

/-- Wherever code stands in a program, its jumps belong to operators of a tree. -/
def Bracketed (schema : List ValueType) (e : Expr) (start : Nat) (code : List Instr) : Prop :=
  ∀ before after k op target, before.length = start →
    code[k]? = some (.jumpIfDecided op target) →
    Skips schema e (before ++ (code ++ after)) (start + k) op target

theorem Bracketed.append {first second : List Instr} (hfirst : Bracketed schema e start first)
    (hsecond : Bracketed schema e (start + first.length) second) :
    Bracketed schema e start (first ++ second) := by
  intro before after k op target hstart hk
  obtain hlt | hle := Nat.lt_or_ge k first.length
  · rw [List.getElem?_append_left hlt] at hk
    rw [List.append_assoc]
    exact hfirst before (second ++ after) k op target hstart hk
  · rw [List.getElem?_append_right hle] at hk
    have hskips := hsecond (before ++ first) after (k - first.length) op target
      (by rw [List.length_append, hstart]) hk
    rwa [List.append_assoc, ← List.append_assoc first, Nat.add_assoc, Nat.add_sub_cancel' hle]
      at hskips

/-- An instruction that is no jump. -/
theorem Bracketed.single {instr : Instr} (h : ∀ op target, instr ≠ .jumpIfDecided op target) :
    Bracketed schema e start [instr] := by
  intro before after k op target _ hk
  exact absurd (List.mem_singleton.mp (List.mem_of_getElem? hk)).symm (h op target)

/-- Around the jump of a short-circuit operator stands the code of its operands. -/
theorem Bracketed.skipping {op : BinaryOp} {l r : Expr} {left right : List Instr}
    (hnode : .binary op l r ∈ e.preorder) (hshort : op.isShortCircuit = true)
    (hleft : emit schema l start = .ok left)
    (hright : emit schema r (start + left.length + 1) = .ok right)
    (hl : Bracketed schema e start left)
    (hr : Bracketed schema e (start + left.length + 1) right) :
    Bracketed schema e start (left ++
      .jumpIfDecided op (start + left.length + 1 + right.length + 1) ::
        (right ++ [.binary op])) := by
  have hbehind : Bracketed schema e (start + left.length + 1) (right ++ [.binary op]) :=
    hr.append (.single fun _ _ => Instr.noConfusion)
  intro before after k op' target hstart hk
  obtain hlt | hle := Nat.lt_or_ge k left.length
  · rw [List.getElem?_append_left hlt] at hk
    rw [List.append_assoc]
    exact hl before _ k op' target hstart hk
  · obtain ⟨i, rfl⟩ := Nat.exists_eq_add_of_le hle
    rw [List.getElem?_append_right hle, Nat.add_sub_cancel_left] at hk
    cases i with
    | zero =>
      cases hk
      refine ⟨l, r, before, left, right, after, hnode, hshort, hstart ▸ hleft, hright, ?_, ?_, ?_⟩
      · simp only [List.append_assoc, List.cons_append, List.nil_append]
      · rw [hstart, Nat.add_zero]
      · omega
    | succ i =>
      rw [List.getElem?_cons_succ] at hk
      have hskips := hbehind
        (before ++ (left ++ [.jumpIfDecided op (start + left.length + 1 + right.length + 1)])) after
        i op' target
        (by simp only [List.length_append, List.length_singleton, hstart, Nat.add_assoc]) hk
      have hindex : start + left.length + 1 + i = start + (left.length + (i + 1)) := by omega
      simpa only [List.append_assoc, List.cons_append, List.nil_append, hindex] using hskips

/-- The jumps in the code of a tree belong to its operators. -/
theorem bracketed_emit {n : Expr} (hn : n ∈ e.preorder) (h : emit schema n start = .ok code) :
    Bracketed schema e start code := by
  have hpart {n child : Expr} (hn : n ∈ e.preorder) (hchild : child ∈ n.children) :
      child ∈ e.preorder :=
    Expr.mem_preorder_trans
      (Expr.mem_preorder_iff.mpr (.inr ⟨child, hchild, child.self_mem_preorder⟩)) hn
  revert hn
  refine @emit_induction schema n code start
    (fun n start code => n ∈ e.preorder → Bracketed schema e start code)
    (fun args start code => (∀ a ∈ args, a ∈ e.preorder) → Bracketed schema e start code)
    ?const ?field ?skipping ?binary ?unary ?call ?nil ?cons h
  case const => exact fun v _ _ => .single fun _ _ => Instr.noConfusion
  case field => exact fun c t _ _ => .single fun _ _ => Instr.noConfusion
  case skipping =>
    intro op l r start left right hshort hleft hright ihl ihr hn
    have hl := ihl (hpart hn List.mem_cons_self)
    have hr := ihr (hpart hn (List.mem_cons_of_mem l List.mem_cons_self))
    exact .skipping hn hshort hleft hright hl hr
  case binary =>
    intro op l r start left right _ ihl ihr hn
    have hl := ihl (hpart hn List.mem_cons_self)
    have hr := ihr (hpart hn (List.mem_cons_of_mem l List.mem_cons_self))
    exact hl.append (hr.append (.single fun _ _ => Instr.noConfusion))
  case unary =>
    intro op a start operand ih hn
    exact (ih (hpart hn List.mem_cons_self)).append (.single fun _ _ => Instr.noConfusion)
  case call =>
    intro f args start operands ih hn
    exact (ih fun a ha => hpart hn ha).append (.single fun _ _ => Instr.noConfusion)
  case nil =>
    intro start _ before after k op target _ hk
    cases hk
  case cons =>
    intro a args start first more ihfirst ihmore hn
    rw [List.forall_mem_cons] at hn
    exact (ihfirst hn.1).append (ihmore hn.2)

/-- The height before the next instruction is that after the instruction. -/
theorem heightBefore_succ {p : Program} {index : Nat} {instr : Instr}
    (hat : p.instrs[index]? = some instr) :
    p.heightBefore (index + 1) = instr.heightAfter (p.heightBefore index) := by
  rw [heightBefore, List.take_add_one, hat, rise_append]
  rfl

/-- A jump has the operator right before its target, and the stack is as high there as before the
jump. -/
theorem Skips.meets {p : Program} {index target : Nat} {op : BinaryOp}
    (h : Skips schema e p.instrs index op target) :
    index < target ∧ target ≤ p.length ∧ p.instrs[target - 1]? = some (.binary op) ∧
      p.heightBefore target = p.heightBefore index := by
  obtain ⟨l, r, before, left, right, after, -, -, hleft, hright, hinstrs, hindex, htarget⟩ := h
  have hbefore : p.instrs = (before ++ left) ++
      (.jumpIfDecided op target :: (right ++ .binary op :: after)) := by
    rw [hinstrs, List.append_assoc]
  have hthrough : p.instrs = (before ++ left ++ .jumpIfDecided op target :: right) ++
      .binary op :: after := by
    rw [hbefore, List.append_assoc _ _ (.binary op :: after), List.cons_append]
  have hlength : (before ++ left ++ .jumpIfDecided op target :: right).length + 1 = target := by
    rw [htarget, hindex]
    simp only [List.length_append, List.length_cons]
    omega
  have hat : p.instrs[target - 1]? = some (.binary op) := by
    rw [← hlength, Nat.add_sub_cancel, hthrough, List.getElem?_append_right (Nat.le_refl _),
      Nat.sub_self]
    rfl
  have hpos : target - 1 + 1 = target := by omega
  refine ⟨by omega, ?_, hat, ?_⟩
  · rw [← hpos]
    exact (List.getElem?_eq_some_iff.mp hat).1
  · -- both operands lift the stack by one value, and the operator puts one in the place of two
    have hthere : p.heightBefore index = rise before 0 + 1 := by
      rw [heightBefore, hbefore, List.take_left' (by rw [List.length_append, hindex]), rise_append,
        (lifts_emit hleft _).2]
    have hhere : p.heightBefore (target - 1) = rise before 0 + 1 + 1 := by
      rw [heightBefore, hthrough, List.take_left' (by omega), rise_append, rise_append,
        (lifts_emit hleft _).2, rise, List.foldl_cons]
      exact (lifts_emit hright _).2
    rw [← hpos, heightBefore_succ hat, hhere, hthere]
    rfl

/-- What makes the height of the stack a matter of the place in a program. -/
structure Disciplined (p : Program) : Prop where
  /-- Every instruction finds its operands. -/
  operands_le : ∀ index instr, p.instrs[index]? = some instr →
    instr.operands ≤ p.heightBefore index
  /-- A jump leads forward within the program, to a place of its own height. -/
  meets : ∀ index op target, p.instrs[index]? = some (.jumpIfDecided op target) →
    index < target ∧ target ≤ p.length ∧ p.heightBefore target = p.heightBefore index
  /-- One value is left at the end. -/
  height_length : p.heightBefore p.length = 1

/-- The jumps of a compiled program belong to operators of the tree. -/
theorem skips_of_compile {p : Program} (h : compile e schema = .ok p) {index target : Nat}
    {op : BinaryOp} (hat : p.instrs[index]? = some (.jumpIfDecided op target)) :
    Skips schema e p.instrs index op target := by
  have hcode := emit_of_compile h
  have hskips := bracketed_emit e.self_mem_preorder hcode [] [] index op target rfl hat
  simpa only [List.nil_append, List.append_nil, Nat.zero_add] using hskips

/-- Compiled programs keep the discipline. -/
theorem disciplined_of_compile {p : Program} (h : compile e schema = .ok p) : p.Disciplined where
  operands_le := by
    intro index instr hat
    obtain ⟨hindex, hget⟩ := List.getElem?_eq_some_iff.mp hat
    have hsupplied := (lifts_emit (emit_of_compile h) 0).1
    rw [← List.take_append_drop index p.instrs, supplied_append, List.drop_eq_getElem_cons hindex,
      hget] at hsupplied
    exact hsupplied.2.1
  meets := by
    intro index op target hat
    obtain ⟨hlt, hle, -, hheight⟩ := (skips_of_compile h hat).meets
    exact ⟨hlt, hle, hheight⟩
  height_length := by
    rw [heightBefore, length, List.take_length]
    exact (lifts_emit (emit_of_compile h) 0).2

namespace Disciplined

variable {p : Program} {columns : List Column} {row n : Nat} {s : State} {instr : Instr}

theorem leadsForward (h : p.Disciplined) : p.LeadsForward := by
  intro index op target hat
  obtain ⟨hlt, hle, -⟩ := h.meets index op target hat
  exact ⟨hlt, hle⟩

/-- Whatever may follow an instruction finds the stack as high as the instruction leaves it. -/
theorem heightBefore_successor (h : p.Disciplined) {index next : Nat}
    (hat : p.instrs[index]? = some instr) (hnext : next ∈ instr.successors index) :
    p.heightBefore next = instr.heightAfter (p.heightBefore index) := by
  have hone := heightBefore_succ hat
  cases instr with
  | jumpIfDecided op target =>
    obtain rfl | hnext := List.mem_cons.mp hnext
    · exact hone
    · have hfound : 1 ≤ p.heightBefore index := h.operands_le index _ hat
      rw [List.mem_singleton.mp hnext, (h.meets index op target hat).2.2]
      exact (Nat.sub_add_cancel hfound).symm
  | _ =>
    rw [List.mem_singleton.mp hnext]
    exact hone

/-- On every way through the program the height before an instruction is the same. -/
theorem height_eq (h : p.Disciplined) {index height : Nat} (hpath : Path p n index height) :
    height = p.heightBefore index := by
  induction hpath with
  | start => rfl
  | step _ hat hnext ih => rw [h.heightBefore_successor hat hnext, ih]

/-- In every state that the program reaches, the next instruction finds its operands. -/
theorem operands_le_of_trace (h : p.Disciplined) (htrace : Trace p columns row n s)
    (hat : p.instrs[s.index]? = some instr) : instr.operands ≤ s.stack.length := by
  rw [h.height_eq htrace.path]
  exact h.operands_le s.index instr hat

/-- No instruction underflows. -/
theorem perform_ne_underflow (h : p.Disciplined) (htrace : Trace p columns row n s)
    (hat : p.instrs[s.index]? = some instr) (left : List Value) :
    perform columns row instr s ≠ .underflow left := by
  intro hunder
  have hoperands := h.operands_le_of_trace htrace hat
  obtain ⟨hshort, -⟩ | ⟨-, hadvances⟩ := perform_cases columns row instr s
  · exact Nat.not_lt_of_le hoperands hshort
  · rw [hunder] at hadvances
    cases hadvances

/-- The execution of a program comes to an end, with a value or a fault, after no more instructions
than the program has. -/
theorem exists_ends (h : p.Disciplined) (columns : List Column) (row : Nat)
    (scratch : List Value) :
    ∃ n ≤ p.length, Ends p columns row n (p.execute columns row scratch) := by
  have hforward := h.leadsForward
  have hstart : Trace p columns row 0 ⟨0, []⟩ := Trace.start
  obtain ⟨m, last, htrace, hlast⟩ := hforward.exists_last hstart
  have hrun := hforward.run_of_trace htrace
  have hcount := (hforward.path_le htrace.path).1
  obtain hend | ⟨instr, hat, hstuck⟩ := hlast
  · have hone : last.stack.length = 1 := by
      rw [h.height_eq htrace.path, hend, h.height_length]
    obtain ⟨v, hv⟩ := List.length_eq_one_iff.mp hone
    rw [hend, length, List.drop_length, run, hv] at hrun
    refine ⟨m, hend ▸ hcount, ?_⟩
    rw [execute, cleared, hrun]
    exact .value htrace hend hv
  · obtain ⟨hindex, hget⟩ := List.getElem?_eq_some_iff.mp hat
    refine ⟨m + 1, Nat.lt_of_le_of_lt hcount hindex, ?_⟩
    rw [List.drop_eq_getElem_cons hindex, hget, run_cons] at hrun
    cases hperform : perform columns row instr last with
    | next s' => exact absurd hperform (hstuck s')
    | underflow left => exact absurd hperform (h.perform_ne_underflow htrace hat left)
    | fault f left =>
      have hfault : run columns row p.instrs 0 [] = (.error f, left) := by
        rw [hrun, hperform]
        rfl
      rw [execute, cleared, hfault]
      exact .fault htrace hat hperform

end Disciplined

/-- A compiled program has an instruction for every node and one more for every short-circuit
operator. Each of these is a jump over the right operand and the operator. On every way through the
program, whichever jumps are taken, the height of the stack before an instruction is that which the
program has at its place, every instruction finds its operands, and one value is left at the end.
Every execution, on any columns, comes to an end after no more instructions than there are, without
an instruction that lacks its operands. -/
theorem compiled_program_keeps_stack_discipline (e : Expr) (schema : List ValueType) (p : Program)
    (h : compile e schema = .ok p) :
    (∀ index op target, p.instrs[index]? = some (.jumpIfDecided op target) →
      index < target ∧ target ≤ p.length ∧ p.instrs[target - 1]? = some (.binary op) ∧
        Skips schema e p.instrs index op target) ∧
    p.length = e.nodeCount + e.preorder.countP Expr.skips ∧
    (∀ n index height, Path p n index height →
      height = p.heightBefore index ∧ n ≤ index ∧ index ≤ p.length ∧
        ∀ instr, p.instrs[index]? = some instr → instr.operands ≤ height) ∧
    p.heightBefore p.length = 1 ∧
    ∀ columns row,
      (∀ n s, Trace p columns row n s → Path p n s.index s.stack.length ∧
        ∀ instr, p.instrs[s.index]? = some instr → ∀ left,
          perform columns row instr s ≠ .underflow left) ∧
      ∀ scratch, ∃ n ≤ p.length, Ends p columns row n (p.execute columns row scratch) := by
  have hdisciplined := disciplined_of_compile h
  refine ⟨?_, ?_, ?_, hdisciplined.height_length, fun columns row => ⟨?_, ?_⟩⟩
  · intro index op target hat
    have hskips := skips_of_compile h hat
    obtain ⟨hlt, hle, hoperator, -⟩ := hskips.meets
    exact ⟨hlt, hle, hoperator, hskips⟩
  · rw [Expr.nodeCount_eq_size]
    exact length_emit (emit_of_compile h)
  · intro n index height hpath
    have hheight := hdisciplined.height_eq hpath
    obtain ⟨hcount, hindex⟩ := hdisciplined.leadsForward.path_le hpath
    refine ⟨hheight, hcount, hindex, fun instr hat => ?_⟩
    rw [hheight]
    exact hdisciplined.operands_le index instr hat
  · intro n s htrace
    exact ⟨htrace.path, fun instr hat => hdisciplined.perform_ne_underflow htrace hat⟩
  · exact hdisciplined.exists_ends columns row

/-- The jump of a right operand ends at the operator of the whole tree, where the stack holds both
operands on either way. -/
theorem nested_connectives_keep_stack_discipline :
    ∃ p, compile (.andAlso (.field 0 .bool) (.orElse (.field 0 .bool) (.boolLit true))) [.bool] =
        .ok p ∧
      p.instrs[3]? = some (.jumpIfDecided .orElse 6) ∧ p.instrs[5]? = some (.binary .orElse) ∧
      (∀ n height, Path p n 6 height → height = 2 ∧ n ≤ 6) ∧
      ∀ row scratch, ∃ n ≤ 7, Ends p [⟨.bool, #[some false, none]⟩] row n
        (p.execute [⟨.bool, #[some false, none]⟩] row scratch) := by
  refine ⟨_, rfl, rfl, ?_, ?_, ?_⟩
  all_goals
    obtain ⟨hjumps, -, hpaths, -, hruns⟩ := compiled_program_keeps_stack_discipline
      (.andAlso (.field 0 .bool) (.orElse (.field 0 .bool) (.boolLit true))) [.bool] _ rfl
  · obtain ⟨-, -, hoperator, -⟩ := hjumps 3 .orElse 6 rfl
    exact hoperator
  · intro n height hpath
    obtain ⟨hheight, hcount, -⟩ := hpaths n 6 height hpath
    exact ⟨hheight, hcount⟩
  · exact (hruns [⟨.bool, #[some false, none]⟩] · |>.2)

end Program

end QueryParity
