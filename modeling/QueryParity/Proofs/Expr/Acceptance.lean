import QueryParity.Proofs.Expr.Typing

/-!
# What evaluation accepts

Operators check their operands when they are applied, and a null is checked by its type. So where
every operator is applied, a tree that has a value has a type, and it is the type of the value. Two
checks are looser than the signatures, on purpose: a comparison with a null is false and a null is
converted to a null, whatever the types are. Where one of these lets operands without a signature
pass, the tree has no type; there is no other way to a value without a type.
-/

namespace QueryParity

open Outcome

namespace Value

variable {v : Value} {site : FaultSite}

theorem type_of_int? {content : Option Int32} (h : v.int? site = .ok content) : v.type = .int := by
  cases v with
  | null t =>
    cases t with
    | int => rfl
    | _ => cases h
  | int => rfl
  | _ => cases h

theorem type_of_bool? {content : Option Bool} (h : v.bool? site = .ok content) :
    v.type = .bool := by
  cases v with
  | null t =>
    cases t with
    | bool => rfl
    | _ => cases h
  | bool => rfl
  | _ => cases h

theorem type_of_string? {content : Option String} (h : v.string? site = .ok content) :
    v.type = .string := by
  cases v with
  | null t =>
    cases t with
    | string => rfl
    | _ => cases h
  | string => rfl
  | _ => cases h

theorem type_of_dateTime? {content : Option Instant} (h : v.dateTime? site = .ok content) :
    v.type = .dateTime := by
  cases v with
  | null t =>
    cases t with
    | dateTime => rfl
    | _ => cases h
  | dateTime => rfl
  | _ => cases h

end Value

namespace BinaryOp

variable {a b v : Value}

/-- Whether an operator compares its operands by their order. -/
def isRelational : BinaryOp → Bool
  | .lessThan | .lessThanOrEqual | .greaterThan | .greaterThanOrEqual => true
  | _ => false

theorem types_of_arithmetic {f : Int32 → Int32 → Except Fault Int32}
    (h : arithmetic f a b = .ok v) : a.type = .int ∧ b.type = .int ∧ v.type = .int := by
  obtain ⟨x, hx, h⟩ := bind_eq_ok_iff.mp h
  obtain ⟨y, hy, h⟩ := bind_eq_ok_iff.mp h
  refine ⟨Value.type_of_int? hx, Value.type_of_int? hy, ?_⟩
  match x, y, h with
  | some x, some y, h =>
    have hmap : (f x y).map Value.int = .ok v := h
    cases hf : f x y with
    | error fault =>
      rw [hf] at hmap
      cases hmap
    | ok n =>
      rw [hf] at hmap
      cases hmap
      rfl
  | none, _, h | some _, none, h =>
    cases h
    rfl

theorem types_of_connective {site : FaultSite} {f : Option Bool → Option Bool → Option Bool}
    (h : connective site f a b = .ok v) : a.type = .bool ∧ b.type = .bool ∧ v.type = .bool := by
  obtain ⟨x, hx, h⟩ := bind_eq_ok_iff.mp h
  obtain ⟨y, hy, h⟩ := bind_eq_ok_iff.mp h
  cases h
  exact ⟨Value.type_of_bool? hx, Value.type_of_bool? hy, Value.type_ofTruth _⟩

theorem types_of_equality {equal : Bool} (h : equality a b = .ok equal) : a.type = b.type := by
  rw [equality] at h
  split at h
  · assumption
  · cases h

/-- A comparison yields a boolean, of two integers, of two date-times, or with a null. -/
theorem types_of_comparison {test : Ordering → Bool} (h : comparison test a b = .ok v) :
    v.type = .bool ∧ (a.type = b.type ∧ (a.type = .int ∨ a.type = .dateTime) ∨
      a.isNull = true ∨ b.isNull = true) := by
  obtain ⟨o, ho, h⟩ := bind_eq_ok_iff.mp h
  cases h
  refine ⟨rfl, ?_⟩
  cases a <;> cases b <;> simp_all [ordering, Value.type, Value.isNull]

/-- Operands that an operator accepts have one of its signatures, or the operator is a comparison
and one of them is a null. -/
theorem signature_of_apply {op : BinaryOp} (h : op.apply a b = .ok v) :
    op.resultType a.type b.type = some v.type ∨
      op.isRelational = true ∧ (a.isNull = true ∨ b.isNull = true) ∧
        op.resultType a.type b.type = none := by
  cases op with
  | add | subtract | multiply | divide | modulo | leftShift | rightShift =>
    obtain ⟨ha, hb, hv⟩ := types_of_arithmetic h
    rw [ha, hb, hv]
    exact .inl rfl
  | and | or | andAlso | orElse =>
    obtain ⟨ha, hb, hv⟩ := types_of_connective h
    rw [ha, hb, hv]
    exact .inl rfl
  | equal | notEqual =>
    rw [apply] at h
    cases heq : equality a b with
    | error fault =>
      rw [heq] at h
      cases h
    | ok equal =>
      rw [heq] at h
      cases h
      exact .inl (if_pos (types_of_equality heq))
  | lessThan | lessThanOrEqual | greaterThan | greaterThanOrEqual =>
    obtain ⟨hv, hoperands⟩ := types_of_comparison h
    rw [hv, resultType]
    by_cases htypes : a.type = b.type ∧ (a.type = .int ∨ a.type = .dateTime)
    · exact .inl (if_pos htypes)
    · exact .inr ⟨rfl, hoperands.resolve_left htypes, if_neg htypes⟩

end BinaryOp

/-- A conversion with a signature results in its target. -/
theorem UnaryOp.eq_of_resultType_convert {target t u : ValueType}
    (h : (UnaryOp.convert target).resultType t = some u) : u = target := by
  cases target <;> cases t <;> cases h <;> rfl

/-- An operand that an operator accepts has one of its signatures, or it is a null that is
converted. -/
theorem UnaryOp.signature_of_apply {op : UnaryOp} {v w : Value} (h : op.apply v = .ok w) :
    op.resultType v.type = some w.type ∨
      ∃ target, op = .convert target ∧ v.isNull = true ∧ op.resultType v.type = none := by
  cases op with
  | not =>
    cases v with
    | null t => cases t <;> cases h <;> exact .inl rfl
    | _ => cases h <;> exact .inl rfl
  | negate =>
    obtain ⟨content, hv, h⟩ := bind_eq_ok_iff.mp h
    rw [Value.type_of_int? hv]
    cases content <;> cases h <;> exact .inl rfl
  | isNull | isNotNull =>
    cases h
    exact .inl rfl
  | convert target =>
    cases v with
    | null t =>
      cases h
      cases hsignature : (UnaryOp.convert target).resultType t with
      | none => exact .inr ⟨target, rfl, rfl, hsignature⟩
      | some u =>
        obtain rfl := UnaryOp.eq_of_resultType_convert hsignature
        exact .inl hsignature
    | _ => cases target <;> cases h <;> exact .inl rfl

namespace Func

variable {a b v : Value}

theorem types_of_stringPredicate {test : String → String → Bool}
    (h : stringPredicate test a b = .ok v) :
    a.type = .string ∧ b.type = .string ∧ v.type = .bool := by
  obtain ⟨x, hx, h⟩ := bind_eq_ok_iff.mp h
  obtain ⟨y, hy, h⟩ := bind_eq_ok_iff.mp h
  refine ⟨Value.type_of_string? hx, Value.type_of_string? hy, ?_⟩
  cases x <;> cases y <;> cases h <;> rfl

theorem types_of_inZone (h : inZone a b = .ok v) :
    a.type = .dateTime ∧ b.type = .string ∧ v.type = .dateTime := by
  obtain ⟨x, hx, h⟩ := bind_eq_ok_iff.mp h
  obtain ⟨y, hy, h⟩ := bind_eq_ok_iff.mp h
  refine ⟨Value.type_of_dateTime? hx, Value.type_of_string? hy, ?_⟩
  match x, y, h with
  | some instant, some zone, h =>
    simp only at h
    split at h <;> cases h
    rfl
  | none, _, h | some _, none, h =>
    cases h
    rfl

/-- Arguments that a function accepts are two, and they have its signature. -/
theorem signature_of_apply {f : Func} {args : List Value} (h : f.apply args = .ok v) :
    ∃ a b, args = [a, b] ∧ f.resultType [a.type, b.type] = some v.type := by
  match args, h with
  | [a, b], h =>
    refine ⟨a, b, rfl, ?_⟩
    cases f with
    | like | startsWith | endsWith =>
      obtain ⟨ha, hb, hv⟩ := types_of_stringPredicate h
      rw [ha, hb, hv]
      rfl
    | atTimeZone =>
      obtain ⟨ha, hb, hv⟩ := types_of_inZone h
      rw [ha, hb, hv]
      rfl

end Func

namespace Expr

/-- No operator of a tree skips an operand. -/
def Strict (e : Expr) : Prop :=
  ∀ op l r, .binary op l r ∈ e.preorder → op.isShortCircuit = false

/-- Whether a node is an operator that skips an operand. -/
def skips : Expr → Bool
  | .binary op _ _ => op.isShortCircuit
  | _ => false

instance (e : Expr) : Decidable e.Strict :=
  decidable_of_iff (∀ n ∈ e.preorder, n.skips = false) <| by
    constructor
    · intro h op l r hm
      exact h _ hm
    · intro h n hn
      cases n with
      | binary op l r => exact h op l r hn
      | _ => rfl

theorem strict_binary {op : BinaryOp} {l r : Expr} :
    (binary op l r).Strict ↔ op.isShortCircuit = false ∧ l.Strict ∧ r.Strict := by
  constructor
  · intro h
    exact ⟨h op l r (by simp), fun op l r hm => h op l r (by simp [hm]),
      fun op l r hm => h op l r (by simp [hm])⟩
  · intro ⟨hop, hl, hr⟩ op' l' r' hm
    obtain he | hm | hm := mem_preorder_binary.mp hm
    · cases he
      exact hop
    · exact hl _ _ _ hm
    · exact hr _ _ _ hm

theorem strict_unary {op : UnaryOp} {a : Expr} : (unary op a).Strict ↔ a.Strict := by
  simp [Strict]

theorem Strict.of_mem_args {f : Func} {args : List Expr} {a : Expr} (h : (call f args).Strict)
    (ha : a ∈ args) : a.Strict :=
  fun op l r hm => h op l r (mem_preorder_of_mem_args ha hm)

/-- An application lets a null pass for which the operator has no signature. -/
inductive PassesNull (row : List Value) : Expr → Prop where
  /-- A comparison with a null is false, of whatever types its operands are. -/
  | comparison {op : BinaryOp} {l r : Expr} {a b : Value} :
      op.isRelational = true → l.evaluate row = .ok a → r.evaluate row = .ok b →
        a.isNull = true ∨ b.isNull = true → op.resultType a.type b.type = none →
          PassesNull row (.binary op l r)
  /-- A null is converted to a null of the target, of whatever type it is. -/
  | conversion {target : ValueType} {e : Expr} {v : Value} :
      e.evaluate row = .ok v → v.isNull = true →
        (UnaryOp.convert target).resultType v.type = none →
          PassesNull row (.unary (.convert target) e)

variable {row : List Value}

/-- An application with a type lets no null pass: its operands have values of a signature. -/
theorem not_passesNull_of_infer {e : Expr} {t : ValueType} (h : e.infer = .ok t)
    (hrow : e.FieldsMatch (row.map Value.type)) : ¬ PassesNull row e := by
  intro hpasses
  cases hpasses with
  | comparison _ hl hr _ hnone =>
    obtain ⟨lt, rt, hlt, hrt, ht⟩ := infer_binary_eq_ok_iff.mp h
    obtain ⟨hlrow, hrrow⟩ := fieldsMatch_binary.mp hrow
    rw [type_of_evaluate hlt hlrow hl, type_of_evaluate hrt hrrow hr, ht] at hnone
    cases hnone
  | conversion he _ hnone =>
    obtain ⟨u, hu, ht⟩ := infer_unary_eq_ok_iff.mp h
    rw [type_of_evaluate hu (fieldsMatch_unary.mp hrow) he, ht] at hnone
    cases hnone

/-- Trees have values exactly if the first of them has one and the others do. -/
theorem evaluateAll_cons_eq_ok_iff {e : Expr} {es : List Expr} {values : List Value} :
    evaluateAll row (e :: es) = .ok values ↔
      ∃ v vs, e.evaluate row = .ok v ∧ evaluateAll row es = .ok vs ∧ v :: vs = values := by
  simp only [evaluateAll, bind_eq_ok_iff, Except.ok.injEq]
  constructor
  · rintro ⟨v, hv, vs, hvs, hvalues⟩
    exact ⟨v, vs, hv, hvs, hvalues⟩
  · rintro ⟨v, vs, hv, hvs, hvalues⟩
    exact ⟨v, hv, vs, hvs, hvalues⟩

/-- Two values are those of two trees, in their order. -/
theorem eq_pair_of_evaluateAll {args : List Expr} {a b : Value}
    (h : evaluateAll row args = .ok [a, b]) :
    ∃ x y, args = [x, y] ∧ x.evaluate row = .ok a ∧ y.evaluate row = .ok b := by
  match args with
  | [] => cases h
  | [x] =>
    obtain ⟨v, vs, -, hvs, hvalues⟩ := evaluateAll_cons_eq_ok_iff.mp h
    cases hvs
    cases hvalues
  | [x, y] =>
    obtain ⟨v, vs, hv, hvs, hvalues⟩ := evaluateAll_cons_eq_ok_iff.mp h
    cases hvalues
    obtain ⟨w, ws, hw, -, hvalues⟩ := evaluateAll_cons_eq_ok_iff.mp hvs
    cases hvalues
    exact ⟨x, y, rfl, hv, hw⟩
  | x :: y :: z :: rest =>
    simp [evaluateAll_cons_eq_ok_iff] at h

/-- A tree that has a value has its type, if it skips no operand and no null passes. -/
theorem infer_of_evaluate {e : Expr} (hstrict : e.Strict)
    (hrow : e.FieldsMatch (row.map Value.type)) (hpasses : ∀ n ∈ e.preorder, ¬ PassesNull row n)
    {v : Value} (hv : e.evaluate row = .ok v) : e.infer = .ok v.type := by
  induction e generalizing v with
  | const w =>
    cases hv
    rfl
  | root i t => cases hv
  | field c t =>
    rw [fieldsMatch_field, List.getElem?_map, Option.map_eq_some_iff] at hrow
    obtain ⟨w, hw, rfl⟩ := hrow
    rw [evaluate, hw] at hv
    cases hv
    rfl
  | binary op l r ihl ihr =>
    obtain ⟨hop, hlstrict, hrstrict⟩ := strict_binary.mp hstrict
    obtain ⟨hlrow, hrrow⟩ := fieldsMatch_binary.mp hrow
    rw [evaluate] at hv
    obtain ⟨a, ha, hv⟩ := bind_eq_ok_iff.mp hv
    rw [BinaryOp.decides_eq_false hop, if_neg Bool.false_ne_true] at hv
    obtain ⟨b, hb, hv⟩ := bind_eq_ok_iff.mp hv
    have hl := ihl hlstrict hlrow (fun n hn => hpasses n (by simp [hn])) ha
    have hr := ihr hrstrict hrrow (fun n hn => hpasses n (by simp [hn])) hb
    obtain hsignature | ⟨hrelational, hnull, hnone⟩ := BinaryOp.signature_of_apply hv
    · exact infer_binary_eq_ok_iff.mpr ⟨a.type, b.type, hl, hr, hsignature⟩
    · exact absurd (.comparison hrelational ha hb hnull hnone) (hpasses _ (self_mem_preorder _))
  | unary op a ih =>
    rw [evaluate] at hv
    obtain ⟨w, hw, hv⟩ := bind_eq_ok_iff.mp hv
    have ha := ih (strict_unary.mp hstrict) (fieldsMatch_unary.mp hrow)
      (fun n hn => hpasses n (by simp [hn])) hw
    obtain hsignature | ⟨target, rfl, hnull, hnone⟩ := UnaryOp.signature_of_apply hv
    · exact infer_unary_eq_ok_iff.mpr ⟨w.type, ha, hsignature⟩
    · exact absurd (.conversion hw hnull hnone) (hpasses _ (self_mem_preorder _))
  | call f args ih =>
    rw [evaluate] at hv
    obtain ⟨vs, hvs, hv⟩ := bind_eq_ok_iff.mp hv
    obtain ⟨a, b, rfl, hsignature⟩ := Func.signature_of_apply hv
    obtain ⟨x, y, rfl, hx, hy⟩ := eq_pair_of_evaluateAll hvs
    have htype : ∀ z ∈ [x, y], ∀ w, z.evaluate row = .ok w → z.infer = .ok w.type :=
      fun z hz w => ih z hz (hstrict.of_mem_args hz) (fieldsMatch_call.mp hrow z hz)
        fun n hn => hpasses n (mem_preorder_of_mem_args hz hn)
    exact infer_call_eq_ok_iff.mpr ⟨x, y, a.type, b.type, rfl, htype x (by simp) a hx,
      htype y (by simp) b hy, hsignature⟩

/-- Where a tree that skips no operand has a value, it has a type, and the type of the value, except
where a comparison or a conversion lets a null pass for which it has no signature. Such a tree has
no type. The fields of the tree hold values of the types that they declare; nothing else is assumed
of the types. -/
theorem evaluated_tree_has_type_unless_null_passes (e : Expr) (row : List Value) (v : Value)
    (hstrict : e.Strict) (hrow : e.FieldsMatch (row.map Value.type))
    (hv : e.evaluate row = .ok v) :
    (e.infer = .ok v.type ↔ ∀ n ∈ e.preorder, ¬ PassesNull row n) := by
  constructor
  · intro htype n hn
    obtain ⟨t, ht⟩ := exists_infer_of_mem_preorder htype hn
    exact not_passesNull_of_infer ht (hrow.of_mem_preorder hn)
  · intro hpasses
    exact infer_of_evaluate hstrict hrow hpasses hv

/-- A null of the row is of the declared type, so nothing passes where it is compared and
converted. -/
theorem evaluated_comparison_with_typed_null_passes_nothing :
    let compared := unary .not (binary .lessThan (field 0 .int) (const (.int 1)))
    let converted := unary .isNull (unary (.convert .string) (field 0 .int))
    (binary .or compared converted).evaluate [.null .int] = .ok (.bool true) ∧
      ∀ n ∈ (binary .or compared converted).preorder, ¬ PassesNull [.null .int] n := by
  intro compared converted
  have hvalue : (binary .or compared converted).evaluate [.null .int] = .ok (.bool true) := rfl
  have htype := evaluated_tree_has_type_unless_null_passes (binary .or compared converted)
    [.null .int] (.bool true) (by decide) (by decide) hvalue
  exact ⟨hvalue, htype.mp rfl⟩

/-- Two trees that have a value and no type: a comparison of an integer with a null string, and the
conversion of a null string to an integer. -/
theorem trees_without_type_have_values_where_nulls_pass :
    ((binary .lessThan (const (.int 1)) (const (.null .string))).Fits [] ∧
      (binary .lessThan (const (.int 1)) (const (.null .string))).Strict ∧
      (binary .lessThan (const (.int 1)) (const (.null .string))).evaluate [] = .ok (.bool false) ∧
      (binary .lessThan (const (.int 1)) (const (.null .string))).infer =
        .error (.noSignature (.binary .lessThan) [.int, .string])) ∧
    ((unary (.convert .int) (const (.null .string))).Fits [] ∧
      (unary (.convert .int) (const (.null .string))).Strict ∧
      (unary (.convert .int) (const (.null .string))).evaluate [] = .ok (.null .int) ∧
      (unary (.convert .int) (const (.null .string))).infer =
        .error (.noSignature (.unary (.convert .int)) [.string])) :=
  ⟨⟨by decide, by decide, rfl, rfl⟩, ⟨by decide, by decide, rfl, rfl⟩⟩

end Expr

end QueryParity
