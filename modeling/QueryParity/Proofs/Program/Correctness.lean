import QueryParity.Expr.Build
import QueryParity.Expr.Evaluate
import QueryParity.Program.Execute
import QueryParity.Proofs.Program.Emission

/-!
# Compiled programs compute what trees evaluate to

A tree compiles exactly if it fits the schema; otherwise the fault is that of its leftmost leaf
that cannot be loaded. The code of a tree, with any code behind it and on any stack, pushes the
value of the tree or ends with its fault: a jump over a right operand leads exactly behind the code
of the whole operator, whatever is nested in the operands.
-/

namespace QueryParity

open Outcome

/-- The values of a row of columns. -/
def Column.rowValues (columns : List Column) (row : Nat) : List Value := columns.map (·.value row)

/-- Reading a field that matches the types of the columns gives its value in the row. -/
theorem Column.readField_eq {columns : List Column} {column : Nat} {type : ValueType}
    (h : (columns.map Column.type)[column]? = some type) (row : Nat) :
    ∃ v, (rowValues columns row)[column]? = some v ∧
      readField columns column type row = .ok v := by
  rw [List.getElem?_map, Option.map_eq_some_iff] at h
  obtain ⟨c, hc, rfl⟩ := h
  refine ⟨c.value row, ?_, ?_⟩
  · rw [rowValues, List.getElem?_map, hc, Option.map_some]
  · simp only [readField, hc, read, if_true]

namespace Expr

/-- What is wrong with a leaf that cannot be compiled: it is a placeholder, or a field that does
not match the schema. -/
def leafFault? (schema : List ValueType) : Expr → Option Fault
  | .root index _ => some (.unboundRoot index)
  | .field column type =>
    match schema[column]? with
    | none => some (.columnOutOfRange column schema.length)
    | some declared =>
      if declared = type then none else some (.typeMismatch .fieldAccess type declared)
  | _ => none

/-- What is wrong with the leftmost leaf of a tree that cannot be compiled. -/
def firstFault? (schema : List ValueType) (e : Expr) : Option Fault :=
  e.preorder.findSome? (leafFault? schema)

/-- What is wrong with the leftmost leaf of several trees that cannot be compiled. -/
def firstFaultAll? (schema : List ValueType) (es : List Expr) : Option Fault :=
  (preorderAll es).findSome? (leafFault? schema)

variable {schema : List ValueType}

theorem firstFault?_field (c : Nat) (t : ValueType) :
    firstFault? schema (.field c t) = leafFault? schema (.field c t) := by
  simp only [firstFault?, preorder, List.findSome?_cons, List.findSome?_nil]
  split <;> simp_all

theorem firstFault?_binary (op : BinaryOp) (l r : Expr) :
    firstFault? schema (.binary op l r) = (l.firstFault? schema).or (r.firstFault? schema) := by
  simp [firstFault?, preorder, List.findSome?_cons, leafFault?, List.findSome?_append]

theorem firstFault?_unary (op : UnaryOp) (a : Expr) :
    firstFault? schema (.unary op a) = a.firstFault? schema := by
  simp [firstFault?, preorder, List.findSome?_cons, leafFault?]

theorem firstFault?_call (f : Func) (args : List Expr) :
    firstFault? schema (.call f args) = firstFaultAll? schema args := by
  simp [firstFault?, firstFaultAll?, preorder, List.findSome?_cons, leafFault?]

theorem firstFaultAll?_cons (e : Expr) (es : List Expr) :
    firstFaultAll? schema (e :: es) = (e.firstFault? schema).or (firstFaultAll? schema es) := by
  simp [firstFault?, firstFaultAll?, preorderAll, List.findSome?_append]

/-- Nothing is wrong with a node exactly if it is no placeholder and, as a field, matches. -/
theorem leafFault?_eq_none_iff {n : Expr} :
    n.leafFault? schema = none ↔
      (∀ index type, n ≠ .root index type) ∧
        ∀ column type, n = .field column type → schema[column]? = some type := by
  cases n with
  | field column type =>
    simp only [leafFault?]
    split
    · simp_all
    · split <;> simp_all
  | _ => simp [leafFault?]

/-- Nothing is wrong with any leaf exactly if the tree fits. -/
theorem firstFault?_eq_none_iff {e : Expr} : e.firstFault? schema = none ↔ e.Fits schema := by
  simp only [firstFault?, List.findSome?_eq_none_iff, leafFault?_eq_none_iff, fits_iff, RootFree,
    FieldsMatch]
  constructor
  · intro h
    exact ⟨fun i t hm => (h _ hm).1 i t rfl, fun c t hm => (h _ hm).2 c t rfl⟩
  · rintro ⟨hr, hf⟩ n hn
    exact ⟨fun i t he => hr i t (he ▸ hn), fun c t he => hf c t (he ▸ hn)⟩

end Expr

namespace Program

variable {schema : List ValueType}

/-- What emission does with a tree, given its first fault: it fails with that fault, or succeeds. -/
def Emits (fault? : Option Fault) (emitted : Except Fault (List Instr)) : Prop :=
  match fault? with
  | some fault => emitted = .error fault
  | none => ∃ code, emitted = .ok code

/-- Emission of one piece after another fails with the fault of the first piece that has one. -/
theorem Emits.seq {first second : Option Fault} {x : Except Fault (List Instr)}
    {f : List Instr → Except Fault (List Instr)} (hx : Emits first x)
    (hf : ∀ code, Emits second (f code)) : Emits (first.or second) (x >>= f) := by
  cases first with
  | some fault => exact congrArg (· >>= f) hx
  | none =>
    obtain ⟨code, rfl⟩ := hx
    exact hf code

/-- Code that is only added to does not change the fault. -/
theorem Emits.map {fault? : Option Fault} {x : Except Fault (List Instr)}
    {f : List Instr → List Instr} (hx : Emits fault? x) :
    Emits fault? (x >>= fun code => .ok (f code)) := by
  cases fault? with
  | some fault => exact congrArg (· >>= fun code => .ok (f code)) hx
  | none =>
    obtain ⟨code, rfl⟩ := hx
    exact ⟨f code, rfl⟩

private theorem emits_emitAll {args : List Expr}
    (ih : ∀ a ∈ args, ∀ start, Emits (a.firstFault? schema) (emit schema a start)) :
    ∀ start, Emits (Expr.firstFaultAll? schema args) (emitAll schema args start) := by
  induction args with
  | nil => exact fun _ => ⟨[], rfl⟩
  | cons a args ihs =>
    intro start
    rw [Expr.firstFaultAll?_cons, emitAll]
    refine (ih a List.mem_cons_self start).seq fun code => ?_
    exact (ihs (fun b hb => ih b (List.mem_cons_of_mem _ hb)) _).map

/-- Emission of a tree fails with the fault of its leftmost leaf that has one, or succeeds. -/
theorem emits_emit (e : Expr) (start : Nat) :
    Emits (e.firstFault? schema) (emit schema e start) := by
  induction e generalizing start with
  | const v => exact ⟨[.push v], rfl⟩
  | root i t => rfl
  | field c t =>
    rw [Expr.firstFault?_field, emit, loadField, Expr.leafFault?]
    cases schema[c]? with
    | none => rfl
    | some declared =>
      by_cases hd : declared = t
      · simp only [hd, if_true]
        exact ⟨[.load c t], rfl⟩
      · simp only [hd, if_false]
        rfl
  | binary op l r ihl ihr =>
    rw [Expr.firstFault?_binary, emit]
    refine (ihl start).seq fun left => ?_
    split
    · exact (ihr _).map
    · exact (ihr _).map
  | unary op a ih =>
    rw [Expr.firstFault?_unary, emit]
    exact (ih start).map
  | call f args ih =>
    rw [Expr.firstFault?_call, emit]
    exact (emits_emitAll ih start).map

/-- What a run comes to that pushes the result of a computation and goes on, or ends with its
fault. -/
def Reaches {α : Type} (outcome : Except Fault Unit × List Value) (result : Except Fault α)
    (next : α → Except Fault Unit × List Value) : Prop :=
  match result with
  | .ok a => outcome = next a
  | .error fault => outcome.1 = .error fault

theorem Reaches.ok {α : Type} {outcome : Except Fault Unit × List Value} {a : α}
    {next : α → Except Fault Unit × List Value} (h : outcome = next a) :
    Reaches outcome (.ok a) next := h

/-- A run that reaches one result and from there another one reaches both in a row. -/
theorem Reaches.bind {α β : Type} {outcome : Except Fault Unit × List Value} {x : Except Fault α}
    {f : α → Except Fault β} {middle : α → Except Fault Unit × List Value}
    {next : β → Except Fault Unit × List Value} (hx : Reaches outcome x middle)
    (hf : ∀ a, x = .ok a → Reaches (middle a) (f a) next) : Reaches outcome (x >>= f) next := by
  cases x with
  | error fault => exact hx
  | ok a =>
    have hm : outcome = middle a := hx
    exact hm ▸ hf a rfl

variable {columns : List Column} {row i : Nat} {rest : List Instr} {stack : List Value}

theorem run_nil : run columns row [] i stack = (.ok (), stack) := by rw [run]

theorem run_unary (op : UnaryOp) (a : Value) :
    Reaches (run columns row (.unary op :: rest) i (a :: stack)) (op.apply a)
      fun v => run columns row rest (i + 1) (v :: stack) := by
  rw [run]
  cases op.apply a <;> rfl

theorem run_binary (op : BinaryOp) (a b : Value) :
    Reaches (run columns row (.binary op :: rest) i (b :: a :: stack)) (op.apply a b)
      fun v => run columns row rest (i + 1) (v :: stack) := by
  rw [run]
  cases op.apply a b <;> rfl

/-- A call takes its arguments off the stack in the order in which they were pushed. -/
theorem run_call (f : Func) (vs : List Value) :
    Reaches (run columns row (.call f vs.length :: rest) i (vs.reverse ++ stack)) (f.apply vs)
      fun v => run columns row rest (i + 1) (v :: stack) := by
  have hlen : ¬ (vs.reverse ++ stack).length < vs.length := by simp
  have htake : (vs.reverse ++ stack).take vs.length = vs.reverse :=
    List.take_left' (List.length_reverse)
  have hdrop : (vs.reverse ++ stack).drop vs.length = stack :=
    List.drop_left' (List.length_reverse)
  rw [run]
  simp only [hlen, if_false, htake, hdrop, List.reverse_reverse]
  cases f.apply vs <;> rfl

/-- A field that matches the columns is pushed with its value in the row. -/
theorem run_load {column : Nat} {type : ValueType}
    (h : (columns.map Column.type)[column]? = some type) :
    Reaches (run columns row (.load column type :: rest) i stack)
      ((Expr.field column type).evaluate (Column.rowValues columns row))
      fun v => run columns row rest (i + 1) (v :: stack) := by
  obtain ⟨v, hv, hread⟩ := Column.readField_eq h row
  rw [run, hread, Expr.evaluate, hv]
  rfl

/-- A jump over a block is taken exactly if the top value decides; the value stays in place. -/
theorem run_jumpIfDecided (op : BinaryOp) (block : List Instr) (a : Value) :
    run columns row (.jumpIfDecided op (i + 1 + block.length) :: (block ++ rest)) i (a :: stack) =
      if op.decides a then run columns row rest (i + 1 + block.length) (a :: stack)
      else run columns row (block ++ rest) (i + 1) (a :: stack) := by
  have hskip : i + 1 + block.length - (i + 1) = block.length := by omega
  have hindex : max (i + 1 + block.length) (i + 1) = i + 1 + block.length := by omega
  rw [run]
  simp only [hskip, hindex, List.drop_left]

/-- Code that computes a right operand, with a jump before it and the operator behind it, skips both
if the left operand decides, and computes the operator's value otherwise. -/
theorem run_skipping (op : BinaryOp) (a : Value) {right : List Instr} {y : Except Fault Value}
    (hright : Reaches (run columns row (right ++ .binary op :: rest) (i + 1) (a :: stack)) y
      fun b => run columns row (.binary op :: rest) (i + 1 + right.length) (b :: a :: stack)) :
    Reaches
      (run columns row
        (.jumpIfDecided op (i + 1 + (right.length + 1)) :: (right ++ .binary op :: rest)) i
        (a :: stack))
      (if op.decides a then .ok a else y >>= op.apply a)
      fun v => run columns row rest (i + 1 + (right.length + 1)) (v :: stack) := by
  have hjump := @run_jumpIfDecided columns row i rest stack op (right ++ [.binary op]) a
  rw [List.length_append, List.length_singleton, List.append_assoc, List.singleton_append] at hjump
  rw [hjump]
  cases op.decides a with
  | true => exact Reaches.ok rfl
  | false => exact hright.bind fun b _ => run_binary op a b

private theorem length_of_evaluateAll {vals : List Value} {es : List Expr} {vs : List Value}
    (h : Expr.evaluateAll vals es = .ok vs) : vs.length = es.length := by
  induction es generalizing vs with
  | nil =>
    cases h
    rfl
  | cons e es ih =>
    rw [Expr.evaluateAll, bind_eq_ok_iff] at h
    obtain ⟨v, -, h⟩ := h
    obtain ⟨ws, hws, h⟩ := bind_eq_ok_iff.mp h
    cases h
    rw [List.length_cons, List.length_cons, ih hws]

private theorem run_emitAll {args : List Expr} {start : Nat} {code : List Instr}
    (ih : ∀ a ∈ args, ∀ {start code}, emit schema a start = .ok code → ∀ rest stack,
      Reaches (run columns row (code ++ rest) start stack)
        (a.evaluate (Column.rowValues columns row))
        fun v => run columns row rest (start + code.length) (v :: stack))
    (h : emitAll schema args start = .ok code) (rest : List Instr) (stack : List Value) :
    Reaches (run columns row (code ++ rest) start stack)
      (Expr.evaluateAll (Column.rowValues columns row) args)
      fun vs => run columns row rest (start + code.length) (vs.reverse ++ stack) := by
  induction args generalizing start code stack with
  | nil =>
    cases h
    rfl
  | cons a args ihs =>
    rw [emitAll] at h
    obtain ⟨first, hfirst, h⟩ := bind_eq_ok_iff.mp h
    obtain ⟨more, hmore, h⟩ := bind_eq_ok_iff.mp h
    cases h
    rw [Expr.evaluateAll, List.append_assoc]
    refine (ih a List.mem_cons_self hfirst _ _).bind fun v _ => ?_
    have hargs := ihs (fun b hb => ih b (List.mem_cons_of_mem _ hb)) hmore (v :: stack)
    refine hargs.bind fun vs _ => ?_
    refine Reaches.ok ?_
    simp only [List.reverse_cons, List.append_assoc, List.singleton_append, List.length_append,
      Nat.add_assoc]

theorem emit_field_eq_ok {c start : Nat} {t : ValueType} {code : List Instr}
    (h : emit schema (.field c t) start = .ok code) :
    schema[c]? = some t ∧ code = [.load c t] := by
  rw [emit, loadField] at h
  cases hs : schema[c]? with
  | none =>
    rw [hs] at h
    cases h
  | some declared =>
    rw [hs] at h
    by_cases hd : declared = t
    · simp only [hd, if_true, ok_bind, Except.ok.injEq] at h
      exact ⟨congrArg some hd, h.symm⟩
    · simp only [hd, if_false] at h
      cases h

/-- The code of a tree, with any code behind it and on any stack, pushes the value of the tree and
goes on behind its own end, or ends with the tree's fault. -/
theorem run_emit (hcolumns : columns.map Column.type = schema) {e : Expr} {start : Nat}
    {code : List Instr} (h : emit schema e start = .ok code) (rest : List Instr)
    (stack : List Value) :
    Reaches (run columns row (code ++ rest) start stack)
      (e.evaluate (Column.rowValues columns row))
      fun v => run columns row rest (start + code.length) (v :: stack) := by
  induction e generalizing start code rest stack with
  | const v =>
    cases h
    rw [Expr.evaluate, List.singleton_append, run]
    rfl
  | root i t => cases h
  | field c t =>
    obtain ⟨hfield, rfl⟩ := emit_field_eq_ok h
    exact run_load (hcolumns ▸ hfield)
  | binary op l r ihl ihr =>
    rw [emit] at h
    obtain ⟨left, hleft, h⟩ := bind_eq_ok_iff.mp h
    rw [Expr.evaluate]
    by_cases hshort : op.isShortCircuit = true
    · rw [if_pos hshort] at h
      obtain ⟨right, hright, h⟩ := bind_eq_ok_iff.mp h
      cases h
      rw [List.append_assoc]
      refine (ihl hleft _ _).bind fun a _ => ?_
      have hend (target : Nat) :
          start + (left ++ Instr.jumpIfDecided op target :: (right ++ [.binary op])).length =
            start + left.length + 1 + (right.length + 1) := by
        simp only [List.length_append, List.length_cons, List.length_nil]
        omega
      have hskip := run_skipping op a (ihr hright (.binary op :: rest) (a :: stack))
      simp only [hend, List.cons_append, List.append_assoc, List.nil_append]
      exact hskip
    · rw [if_neg hshort] at h
      obtain ⟨right, hright, h⟩ := bind_eq_ok_iff.mp h
      cases h
      rw [List.append_assoc, List.append_assoc]
      refine (ihl hleft _ _).bind fun a _ => ?_
      rw [BinaryOp.decides_eq_false (by simpa using hshort), if_neg Bool.false_ne_true]
      refine (ihr hright _ _).bind fun b _ => ?_
      rw [List.length_append, List.length_append, ← Nat.add_assoc, ← Nat.add_assoc]
      exact run_binary op a b
  | unary op a ih =>
    rw [emit] at h
    obtain ⟨operand, hoperand, h⟩ := bind_eq_ok_iff.mp h
    cases h
    rw [Expr.evaluate, List.append_assoc]
    refine (ih hoperand _ _).bind fun v _ => ?_
    rw [List.length_append, ← Nat.add_assoc]
    exact run_unary op v
  | call f args ih =>
    rw [emit] at h
    obtain ⟨operands, hoperands, h⟩ := bind_eq_ok_iff.mp h
    cases h
    rw [Expr.evaluate, List.append_assoc]
    refine (run_emitAll (fun a ha _ _ hcode => ih a ha hcode) hoperands _ _).bind fun vs hvs => ?_
    rw [List.length_append, ← Nat.add_assoc, ← length_of_evaluateAll hvs]
    exact run_call f vs

/-- Compilation fails with the fault of the leftmost leaf that has one, and with no other. -/
theorem compile_eq_error_iff {e : Expr} {fault : Fault} :
    compile e schema = .error fault ↔ e.firstFault? schema = some fault := by
  have h : Emits (e.firstFault? schema) (emit schema e 0) := emits_emit e 0
  rw [compile_eq]
  cases hf : e.firstFault? schema with
  | some first =>
    rw [hf] at h
    rw [show emit schema e 0 = .error first from h]
    simp
  | none =>
    rw [hf] at h
    obtain ⟨code, hcode⟩ := h
    rw [hcode]
    simp

/-- A tree compiles exactly if it fits the schema. -/
theorem exists_compile_eq_ok_iff {e : Expr} :
    (∃ p, compile e schema = .ok p) ↔ e.Fits schema := by
  rw [← Expr.firstFault?_eq_none_iff]
  constructor
  · rintro ⟨p, hp⟩
    cases hf : e.firstFault? schema with
    | none => rfl
    | some fault =>
      rw [compile_eq_error_iff.mpr hf] at hp
      cases hp
  · intro hf
    cases hc : compile e schema with
    | ok p => exact ⟨p, rfl⟩
    | error fault =>
      rw [compile_eq_error_iff.mp hc] at hf
      cases hf

/-- A compiled program computes the value of its tree or its fault, whatever was left on the
stack. -/
theorem execute_of_compile {e : Expr} {p : Program} (h : compile e schema = .ok p)
    (hcolumns : columns.map Column.type = schema) (row : Nat) (scratch : List Value) :
    (p.execute columns row scratch).1 = e.evaluate (Column.rowValues columns row) := by
  have hrun := @run_emit schema columns row hcolumns e 0 p.instrs (emit_of_compile h) [] []
  rw [List.append_nil] at hrun
  rw [execute, cleared]
  cases hv : e.evaluate (Column.rowValues columns row) with
  | ok v =>
    rw [hv] at hrun
    have hdone : run columns row p.instrs 0 [] = (.ok (), [v]) := Eq.trans hrun run_nil
    rw [hdone]
  | error fault =>
    rw [hv] at hrun
    have hfault : (run columns row p.instrs 0 []).1 = .error fault := hrun
    cases hr : run columns row p.instrs 0 [] with
    | mk outcome left =>
      rw [hr] at hfault
      cases hfault
      rfl

/-- Compilation accepts exactly the trees that fit the schema, and reports the leftmost leaf of any
other tree that does not. What it accepts computes, on every row and on any stack, what the tree
evaluates to: the same value or the same fault. -/
theorem compile_refines_evaluate (e : Expr) (schema : List ValueType) :
    ((∃ p, compile e schema = .ok p) ↔ e.Fits schema) ∧
      (∀ fault, compile e schema = .error fault ↔ e.firstFault? schema = some fault) ∧
      ∀ p, compile e schema = .ok p →
        ∀ columns : List Column, columns.map Column.type = schema → ∀ row scratch,
          (p.execute columns row scratch).1 = e.evaluate (Column.rowValues columns row) :=
  ⟨exists_compile_eq_ok_iff, fun _ => compile_eq_error_iff,
    fun _ hp _ hcolumns row scratch => execute_of_compile hp hcolumns row scratch⟩

/-- A jump inside an operand leads behind that operand only, and what was left on the stack is not
seen. -/
theorem compile_refines_nested_jumps :
    ∃ p, compile (.andAlso (.orElse (.field 0 .bool) (.equal (.divide (.intLit 1) (.intLit 0))
        (.intLit 0))) (.not (.boolLit false))) [.bool] = .ok p ∧
      (p.execute [⟨.bool, #[some false, some true]⟩] 1 [.int 7]).1 = .ok (.bool true) := by
  refine ⟨_, rfl, ?_⟩
  have hrefines := compile_refines_evaluate (.andAlso (.orElse (.field 0 .bool)
    (.equal (.divide (.intLit 1) (.intLit 0)) (.intLit 0))) (.not (.boolLit false))) [.bool]
  exact (hrefines.2.2 _ rfl _ rfl 1 [.int 7]).trans rfl

end Program

end QueryParity
