import QueryParity.Expr.Evaluate
import QueryParity.Expr.Typing
import QueryParity.Proofs.Expr.Nodes
import QueryParity.Proofs.Outcome

/-!
# Types are kept by evaluation

A tree with a type evaluates to a value of that type, on every row that holds values of the types
that the fields declare. The faults that are possible are division by zero, a placeholder of the
tree, and a zone given to the tree's change of zone; in particular no operand has a wrong type.
-/

namespace QueryParity

open Outcome

/-- A result that is a value of the given type or one of the given faults. -/
def Delivers (t : ValueType) (faults : Fault → Prop) (result : Except Fault Value) : Prop :=
  match result with
  | .ok v => v.type = t
  | .error fault => faults fault

/-- A result after a value delivers what the rest delivers. -/
theorem Delivers.bind {t u : ValueType} {faults : Fault → Prop} {x : Except Fault Value}
    {f : Value → Except Fault Value} (hx : Delivers t faults x)
    (hf : ∀ v, x = .ok v → v.type = t → Delivers u faults (f v)) : Delivers u faults (x >>= f) := by
  cases x with
  | error fault => exact hx
  | ok v => exact hf v rfl hx

theorem Delivers.mono {t : ValueType} {faults more : Fault → Prop} {x : Except Fault Value}
    (hx : Delivers t faults x) (h : ∀ fault, faults fault → more fault) : Delivers t more x := by
  cases x with
  | error fault => exact h fault hx
  | ok v => exact hx

namespace Value

/-- A value of the integer type has an integer content or none. -/
theorem int?_eq_ok {v : Value} (h : v.type = .int) (site : FaultSite) :
    ∃ content, v.int? site = .ok content := by
  cases v with
  | int n => exact ⟨some n, rfl⟩
  | null u =>
    obtain rfl : u = .int := h
    exact ⟨none, rfl⟩
  | _ => cases h

theorem bool?_eq_ok {v : Value} (h : v.type = .bool) (site : FaultSite) :
    ∃ content, v.bool? site = .ok content := by
  cases v with
  | bool b => exact ⟨some b, rfl⟩
  | null u =>
    obtain rfl : u = .bool := h
    exact ⟨none, rfl⟩
  | _ => cases h

theorem string?_eq_ok {v : Value} (h : v.type = .string) (site : FaultSite) :
    ∃ content, v.string? site = .ok content ∧ ∀ s, content = some s → v = .string s := by
  cases v with
  | string s => exact ⟨some s, rfl, fun _ hs => by cases hs; rfl⟩
  | null u =>
    obtain rfl : u = .string := h
    exact ⟨none, rfl, nofun⟩
  | _ => cases h

theorem dateTime?_eq_ok {v : Value} (h : v.type = .dateTime) (site : FaultSite) :
    ∃ content, v.dateTime? site = .ok content := by
  cases v with
  | dateTime t => exact ⟨some t, rfl⟩
  | null u =>
    obtain rfl : u = .dateTime := h
    exact ⟨none, rfl⟩
  | _ => cases h

@[simp] theorem type_ofTruth (b : Option Bool) : (ofTruth b).type = .bool := by
  cases b <;> rfl

end Value

namespace BinaryOp

/-- Division by zero is the only fault. -/
def DividesByZero (fault : Fault) : Prop := fault = .divideByZero

/-- Arithmetic on integers delivers an integer, if the operation itself does. -/
theorem delivers_arithmetic {f : Int32 → Int32 → Except Fault Int32} {l r : Value}
    (hf : ∀ a b fault, f a b = .error fault → DividesByZero fault) (hl : l.type = .int)
    (hr : r.type = .int) : Delivers .int DividesByZero (arithmetic f l r) := by
  obtain ⟨a, ha⟩ := Value.int?_eq_ok hl .integerArithmetic
  obtain ⟨b, hb⟩ := Value.int?_eq_ok hr .integerArithmetic
  rw [arithmetic, ha, ok_bind, hb, ok_bind]
  cases a with
  | none => rfl
  | some a =>
    cases b with
    | none => rfl
    | some b =>
      change Delivers .int DividesByZero ((f a b).map .int)
      cases hab : f a b with
      | ok n => rfl
      | error fault => exact hf a b fault hab

/-- A connective on booleans delivers a boolean. -/
theorem delivers_connective {f : Option Bool → Option Bool → Option Bool} {site : FaultSite}
    {l r : Value} (hl : l.type = .bool) (hr : r.type = .bool) :
    Delivers .bool DividesByZero (connective site f l r) := by
  obtain ⟨a, ha⟩ := Value.bool?_eq_ok hl site
  obtain ⟨b, hb⟩ := Value.bool?_eq_ok hr site
  rw [connective, ha, ok_bind, hb, ok_bind]
  exact Value.type_ofTruth _

/-- A comparison of two integers or two date-times delivers a boolean. -/
theorem delivers_comparison {test : Ordering → Bool} {l r : Value} (hlr : l.type = r.type)
    (hl : l.type = .int ∨ l.type = .dateTime) :
    Delivers .bool DividesByZero (comparison test l r) := by
  have hordering : ∃ o, ordering l r = .ok o := by
    cases l <;> cases r <;> simp_all [ordering, Value.type]
  obtain ⟨o, ho⟩ := hordering
  rw [comparison, ho, ok_bind]
  rfl

/-- Equality of two values of one type is decided. -/
theorem equality_of_type_eq {l r : Value} (h : l.type = r.type) : equality l r = .ok (l == r) :=
  if_pos h

/-- A binary operator delivers the result of its signature, or divides by zero. -/
theorem delivers_apply {op : BinaryOp} {l r : Value} {t : ValueType}
    (h : op.resultType l.type r.type = some t) : Delivers t DividesByZero (op.apply l r) := by
  have hguarded (f : Int32 → Int32 → Int32) (a b : Int32) (fault : Fault)
      (hf : guarded f a b = .error fault) : DividesByZero fault := by
    unfold guarded at hf
    split at hf <;> cases hf
    rfl
  have hplain (f : Int32 → Int32 → Int32) (a b : Int32) (fault : Fault)
      (hf : Except.ok (f a b) = .error fault) : DividesByZero fault := by cases hf
  cases op with
  | add | subtract | multiply | leftShift | rightShift =>
    simp only [resultType, Option.ite_none_right_eq_some, Option.some.injEq] at h
    obtain ⟨⟨hl, hr⟩, rfl⟩ := h
    exact delivers_arithmetic (hplain _) hl hr
  | divide | modulo =>
    simp only [resultType, Option.ite_none_right_eq_some, Option.some.injEq] at h
    obtain ⟨⟨hl, hr⟩, rfl⟩ := h
    exact delivers_arithmetic (hguarded _) hl hr
  | and | or | andAlso | orElse =>
    simp only [resultType, Option.ite_none_right_eq_some, Option.some.injEq] at h
    obtain ⟨⟨hl, hr⟩, rfl⟩ := h
    exact delivers_connective hl hr
  | equal | notEqual =>
    simp only [resultType, Option.ite_none_right_eq_some, Option.some.injEq] at h
    obtain ⟨hlr, rfl⟩ := h
    rw [apply, equality_of_type_eq hlr]
    rfl
  | lessThan | lessThanOrEqual | greaterThan | greaterThanOrEqual =>
    simp only [resultType, Option.ite_none_right_eq_some, Option.some.injEq] at h
    obtain ⟨⟨hlr, hl⟩, rfl⟩ := h
    exact delivers_comparison hlr hl

/-- A left operand that decides has the type of the result. -/
theorem type_of_decides {op : BinaryOp} {l : Value} {r t : ValueType} (hd : op.decides l = true)
    (h : op.resultType l.type r = some t) : l.type = t := by
  cases op <;> cases l <;> simp_all [decides, resultType, Value.type]

end BinaryOp

/-- A unary operator delivers the result of its signature. -/
theorem UnaryOp.apply_of_resultType {op : UnaryOp} {v : Value} {t : ValueType}
    (h : op.resultType v.type = some t) : ∃ w, op.apply v = .ok w ∧ w.type = t := by
  cases op with
  | not | negate =>
    cases v with
    | null u => cases u <;> cases h <;> exact ⟨_, rfl, rfl⟩
    | _ => cases h <;> exact ⟨_, rfl, rfl⟩
  | isNull | isNotNull =>
    cases h
    exact ⟨_, rfl, rfl⟩
  | convert target =>
    cases v with
    | null u => cases target <;> cases u <;> cases h <;> exact ⟨_, rfl, rfl⟩
    | _ => cases target <;> cases h <;> exact ⟨_, rfl, rfl⟩

namespace Func

/-- A string predicate on strings delivers a boolean. -/
theorem stringPredicate_of_type {test : String → String → Bool} {a b : Value}
    (ha : a.type = .string) (hb : b.type = .string) :
    ∃ v, stringPredicate test a b = .ok v ∧ v.type = .bool := by
  obtain ⟨x, hx, -⟩ := Value.string?_eq_ok ha .stringPredicate
  obtain ⟨y, hy, -⟩ := Value.string?_eq_ok hb .stringPredicate
  rw [stringPredicate, hx, ok_bind, hy, ok_bind]
  cases x <;> cases y <;> exact ⟨_, rfl, rfl⟩

/-- The fault of a change of zone to a zone that is not known. -/
def AsksUnknownZone (f : Func) (zone : Value) (fault : Fault) : Prop :=
  f = .atTimeZone ∧ ∃ z, zone = .string z ∧ ZoneOffset.ofText? z = none ∧
    fault = .unknownTimeZone z

/-- A change of zone delivers a date-time, unless the zone is not known. -/
theorem delivers_inZone {a b : Value} (ha : a.type = .dateTime) (hb : b.type = .string) :
    Delivers .dateTime (AsksUnknownZone .atTimeZone b) (inZone a b) := by
  obtain ⟨x, hx⟩ := Value.dateTime?_eq_ok ha .atTimeZone
  obtain ⟨y, hy, hzone⟩ := Value.string?_eq_ok hb .atTimeZone
  rw [inZone, hx, ok_bind, hy, ok_bind]
  cases x with
  | none => rfl
  | some instant =>
    cases y with
    | none => rfl
    | some z =>
      simp only
      cases hz : ZoneOffset.ofText? z with
      | none => exact ⟨rfl, z, hzone z rfl, hz, rfl⟩
      | some offset => rfl

/-- A function delivers the result of its signature, unless it is asked for an unknown zone. -/
theorem delivers_apply {f : Func} {a b : Value} {t : ValueType}
    (h : f.resultType [a.type, b.type] = some t) :
    Delivers t (AsksUnknownZone f b) (f.apply [a, b]) := by
  have hpredicate {test : String → String → Bool} (ha : a.type = .string) (hb : b.type = .string) :
      Delivers .bool (AsksUnknownZone f b) (stringPredicate test a b) := by
    obtain ⟨v, hv, ht⟩ := @stringPredicate_of_type test a b ha hb
    rw [hv]
    exact ht
  generalize ha : a.type = ta at h
  generalize hb : b.type = tb at h
  cases f with
  | like | startsWith | endsWith =>
    cases ta <;> cases tb <;> cases h
    exact hpredicate ha hb
  | atTimeZone =>
    cases ta <;> cases tb <;> cases h
    exact delivers_inZone ha hb

end Func

namespace Expr

theorem signature_eq_ok_iff {operator : Operator} {operands : List ValueType}
    {result : Option ValueType} {t : ValueType} :
    signature operator operands result = .ok t ↔ result = some t := by
  cases result <;> simp [signature]

/-- An application of a binary operator has a type exactly if its operands have types of one of
its signatures. -/
theorem infer_binary_eq_ok_iff {op : BinaryOp} {l r : Expr} {t : ValueType} :
    (binary op l r).infer = .ok t ↔
      ∃ lt rt, l.infer = .ok lt ∧ r.infer = .ok rt ∧ op.resultType lt rt = some t := by
  simp only [infer, bind_eq_ok_iff, signature_eq_ok_iff]
  exact ⟨fun ⟨lt, hl, rt, hr, ht⟩ => ⟨lt, rt, hl, hr, ht⟩,
    fun ⟨lt, rt, hl, hr, ht⟩ => ⟨lt, hl, rt, hr, ht⟩⟩

theorem infer_unary_eq_ok_iff {op : UnaryOp} {a : Expr} {t : ValueType} :
    (unary op a).infer = .ok t ↔ ∃ u, a.infer = .ok u ∧ op.resultType u = some t := by
  simp only [infer, bind_eq_ok_iff, signature_eq_ok_iff]

/-- A call has a type exactly if it has two arguments with types of one of the function's
signatures. -/
theorem infer_call_eq_ok_iff {f : Func} {args : List Expr} {t : ValueType} :
    (call f args).infer = .ok t ↔
      ∃ a b ta tb, args = [a, b] ∧ a.infer = .ok ta ∧ b.infer = .ok tb ∧
        f.resultType [ta, tb] = some t := by
  have harity : f.arity = 2 := by cases f <;> rfl
  rw [infer, harity]
  match args with
  | [a, b] =>
    simp only [List.length_cons, List.length_nil, if_true, inferAll, bind_eq_ok_iff,
      signature_eq_ok_iff]
    constructor
    · rintro ⟨ts, ⟨ta, ha, us, ⟨tb, hb, vs, hvs, hus⟩, hts⟩, ht⟩
      cases hvs
      cases hus
      cases hts
      exact ⟨a, b, ta, tb, rfl, ha, hb, ht⟩
    · rintro ⟨a', b', ta, tb, he, ha, hb, ht⟩
      cases he
      exact ⟨[ta, tb], ⟨ta, ha, [tb], ⟨tb, hb, [], rfl, rfl⟩, rfl⟩, ht⟩
  | [] | [_] | _ :: _ :: _ :: _ => simp

/-- Every argument of a call with a type has a type. -/
theorem exists_infer_of_mem_args {f : Func} {args : List Expr} {t : ValueType} {a : Expr}
    (h : (call f args).infer = .ok t) (ha : a ∈ args) : ∃ u, a.infer = .ok u := by
  obtain ⟨x, y, tx, ty, rfl, hx, hy, -⟩ := infer_call_eq_ok_iff.mp h
  obtain rfl | rfl : a = x ∨ a = y := by simpa using ha
  · exact ⟨tx, hx⟩
  · exact ⟨ty, hy⟩

/-- Every node of a tree with a type has a type. -/
theorem exists_infer_of_mem_preorder {e n : Expr} {t : ValueType} (h : e.infer = .ok t)
    (hn : n ∈ e.preorder) : ∃ u, n.infer = .ok u := by
  induction e generalizing t with
  | const | root | field =>
    obtain rfl := List.mem_singleton.mp hn
    exact ⟨t, h⟩
  | binary op l r ihl ihr =>
    obtain ⟨lt, rt, hl, hr, -⟩ := infer_binary_eq_ok_iff.mp h
    obtain rfl | hn | hn := mem_preorder_binary.mp hn
    · exact ⟨t, h⟩
    · exact ihl hl hn
    · exact ihr hr hn
  | unary op a ih =>
    obtain ⟨u, ha, -⟩ := infer_unary_eq_ok_iff.mp h
    obtain rfl | hn := mem_preorder_unary.mp hn
    · exact ⟨t, h⟩
    · exact ih ha hn
  | call f args ih =>
    obtain rfl | ⟨a, ha, hn⟩ := mem_preorder_call.mp hn
    · exact ⟨t, h⟩
    · obtain ⟨u, hu⟩ := exists_infer_of_mem_args h ha
      exact ih a ha hu hn

/-- A call with two arguments evaluates them from left to right. -/
theorem evaluate_call_pair (row : List Value) (f : Func) (a b : Expr) :
    (call f [a, b]).evaluate row = (do
      let v ← a.evaluate row
      let w ← b.evaluate row
      f.apply [v, w]) := by
  simp only [evaluate, evaluateAll]
  cases a.evaluate row with
  | error fault => rfl
  | ok v => cases b.evaluate row <;> rfl

/-- The faults that evaluation of a tree with a type can raise. -/
inductive PossibleFault (row : List Value) (e : Expr) : Fault → Prop where
  | divideByZero : PossibleFault row e .divideByZero
  /-- A placeholder is left in the tree. -/
  | unboundRoot {index : Nat} {type : ValueType} :
      .root index type ∈ e.preorder → PossibleFault row e (.unboundRoot index)
  /-- A change of zone in the tree is given a zone that is not known. -/
  | unknownTimeZone {a b : Expr} {z : String} :
      .call .atTimeZone [a, b] ∈ e.preorder → b.evaluate row = .ok (.string z) →
        ZoneOffset.ofText? z = none → PossibleFault row e (.unknownTimeZone z)

/-- What is possible in a part of a tree is possible in the tree. -/
theorem PossibleFault.mono {row : List Value} {part e : Expr} {fault : Fault}
    (h : PossibleFault row part fault) (hsub : ∀ n ∈ part.preorder, n ∈ e.preorder) :
    PossibleFault row e fault := by
  cases h with
  | divideByZero => exact .divideByZero
  | unboundRoot hm => exact .unboundRoot (hsub _ hm)
  | unknownTimeZone hm hb hz => exact .unknownTimeZone (hsub _ hm) hb hz

/-- What delivers with the possible faults of a part of a tree does so with those of the tree. -/
theorem delivers_of_part {t : ValueType} {row : List Value} {part e : Expr}
    {x : Except Fault Value} (h : Delivers t (PossibleFault row part) x)
    (hsub : ∀ n ∈ part.preorder, n ∈ e.preorder) : Delivers t (PossibleFault row e) x :=
  h.mono fun _ hf => hf.mono hsub

/-- A tree with a type evaluates to a value of that type or to one of its possible faults, on every
row whose values have the types that the fields declare. -/
theorem delivers_evaluate {e : Expr} {t : ValueType} (h : e.infer = .ok t) {row : List Value}
    (hrow : e.FieldsMatch (row.map Value.type)) :
    Delivers t (PossibleFault row e) (e.evaluate row) := by
  induction e generalizing t with
  | const v => exact Except.ok.inj h
  | root i u => exact .unboundRoot (self_mem_preorder _)
  | field c u =>
    cases h
    rw [fieldsMatch_field, List.getElem?_map, Option.map_eq_some_iff] at hrow
    obtain ⟨v, hv, ht⟩ := hrow
    rw [evaluate, hv]
    exact ht
  | binary op l r ihl ihr =>
    obtain ⟨lt, rt, hl, hr, ht⟩ := infer_binary_eq_ok_iff.mp h
    obtain ⟨hlrow, hrrow⟩ := fieldsMatch_binary.mp hrow
    rw [evaluate]
    refine (delivers_of_part (ihl hl hlrow) fun n hn => by simp [hn]).bind fun a _ ha => ?_
    by_cases hd : op.decides a = true
    · rw [if_pos hd]
      exact BinaryOp.type_of_decides hd (ha ▸ ht)
    · rw [if_neg hd]
      refine (delivers_of_part (ihr hr hrrow) fun n hn => by simp [hn]).bind fun b _ hb => ?_
      subst ha hb
      refine (BinaryOp.delivers_apply ht).mono fun fault hf => ?_
      rw [show fault = .divideByZero from hf]
      exact .divideByZero
  | unary op a ih =>
    obtain ⟨u, ha, ht⟩ := infer_unary_eq_ok_iff.mp h
    have hoperand := ih ha (fieldsMatch_unary.mp hrow)
    rw [evaluate]
    refine (delivers_of_part hoperand fun n hn => by simp [hn]).bind fun v _ hv => ?_
    obtain ⟨w, hw, hwt⟩ := UnaryOp.apply_of_resultType (hv ▸ ht)
    rw [hw]
    exact hwt
  | call f args ih =>
    obtain ⟨a, b, ta, tb, rfl, ha, hb, ht⟩ := infer_call_eq_ok_iff.mp h
    have hargs := fieldsMatch_call.mp hrow
    have hfirst := ih a (by simp) ha (hargs a (by simp))
    have hsecond := ih b (by simp) hb (hargs b (by simp))
    rw [evaluate_call_pair]
    refine (delivers_of_part hfirst fun n hn => by simp [hn]).bind fun v _ hv => ?_
    refine (delivers_of_part hsecond fun n hn => by simp [hn]).bind fun w hwb hw => ?_
    subst hv hw
    refine (Func.delivers_apply ht).mono fun fault hf => ?_
    obtain ⟨rfl, z, rfl, hz, rfl⟩ := hf
    exact .unknownTimeZone (self_mem_preorder _) hwb hz

/-- A value of a tree with a type has that type. -/
theorem type_of_evaluate {e : Expr} {t : ValueType} (h : e.infer = .ok t) {row : List Value}
    (hrow : e.FieldsMatch (row.map Value.type)) {v : Value} (hv : e.evaluate row = .ok v) :
    v.type = t := by
  have hd := delivers_evaluate h hrow
  rwa [hv] at hd

/-- A tree with a type and without placeholders evaluates to a value of that type, or it divides by
zero, or one of its changes of zone is given a zone that is not known. No other fault is possible,
on every row whose values have the types that the fields of the tree declare. -/
theorem typed_tree_evaluates_safely (e : Expr) (t : ValueType) (row : List Value)
    (h : e.infer = .ok t) (hroots : e.RootFree) (hrow : e.FieldsMatch (row.map Value.type)) :
    (∃ v, e.evaluate row = .ok v ∧ v.type = t) ∨ e.evaluate row = .error .divideByZero ∨
      ∃ zone a b, e.evaluate row = .error (.unknownTimeZone zone) ∧
        .call .atTimeZone [a, b] ∈ e.preorder ∧ b.evaluate row = .ok (.string zone) ∧
          ZoneOffset.ofText? zone = none := by
  have hdelivers := delivers_evaluate h hrow
  cases hresult : e.evaluate row with
  | ok v =>
    rw [hresult] at hdelivers
    exact .inl ⟨v, rfl, hdelivers⟩
  | error fault =>
    rw [hresult] at hdelivers
    have hfault : PossibleFault row e fault := hdelivers
    cases hfault with
    | divideByZero => exact .inr (.inl rfl)
    | unboundRoot hmem => exact absurd hmem (hroots _ _)
    | unknownTimeZone hmem hzone hnone => exact .inr (.inr ⟨_, _, _, rfl, hmem, hzone, hnone⟩)

/-- The zone of a change of zone in the right operand of a disjunction is a text of the row. -/
theorem typed_tree_names_unknown_zone :
    ∃ a b, .call .atTimeZone [a, b] ∈ (Expr.binary .orElse (.binary .equal (.field 0 .int)
        (.const (.null .int))) (.unary .isNull (.call .atTimeZone
          [.field 1 .dateTime, .field 2 .string]))).preorder ∧
      b.evaluate [.int 1, .dateTime ⟨0, 0⟩, .string "Mars"] = .ok (.string "Mars") := by
  obtain ⟨v, hv, -⟩ | hzero | ⟨zone, a, b, hfault, hmem, hzone, -⟩ :=
    typed_tree_evaluates_safely (.binary .orElse (.binary .equal (.field 0 .int)
      (.const (.null .int))) (.unary .isNull (.call .atTimeZone
        [.field 1 .dateTime, .field 2 .string]))) .bool
      [.int 1, .dateTime ⟨0, 0⟩, .string "Mars"] rfl (by decide) (by decide)
  · cases hv
  · cases hzero
  · cases hfault
    exact ⟨a, b, hmem, hzone⟩

end Expr

end QueryParity
