import QueryParity.Proofs.Expr.Typing
import QueryParity.Proofs.Lowering.Rewrites

/-!
# Rewriting keeps types and meaning

If every step keeps the type of a node that has one, so does rewriting a tree; and if every step
also keeps what a node over a schema evaluates to, so does rewriting a tree over that schema. Only
trees with a type matter: a part of such a tree has a type again. A scope says over which schema
trees live and whether they may have placeholders, since steps may count on a tree to be bound.
-/

namespace QueryParity

open Outcome

namespace Expr

/-- The type of a call depends on an argument by its type only. -/
theorem infer_argument_congr {f : Func} {before after : List Expr} {a a' : Expr}
    (h : a'.infer = a.infer) :
    (call f (before ++ a' :: after)).infer = (call f (before ++ a :: after)).infer := by
  have hall : inferAll (before ++ a' :: after) = inferAll (before ++ a :: after) := by
    induction before with
    | nil => simp only [List.nil_append, inferAll, h]
    | cons b before ih => simp only [List.cons_append, inferAll, ih]
  simp only [infer, hall, List.length_append, List.length_cons]

/-- The value of a call depends on an argument by its value only. -/
theorem evaluate_argument_congr {row : List Value} {f : Func} {before after : List Expr}
    {a a' : Expr} (h : a'.evaluate row = a.evaluate row) :
    (call f (before ++ a' :: after)).evaluate row =
      (call f (before ++ a :: after)).evaluate row := by
  have hall : evaluateAll row (before ++ a' :: after) = evaluateAll row (before ++ a :: after) := by
    induction before with
    | nil => simp only [List.nil_append, evaluateAll, h]
    | cons b before ih => simp only [List.cons_append, evaluateAll, ih]
  simp only [evaluate, hall]

/-- What holds of every argument still does if one is replaced by a tree of which it holds. -/
theorem forall_mem_replace {P : Expr → Prop} {before after : List Expr} {a a' : Expr}
    (h : ∀ b ∈ before ++ a :: after, P b) (ha' : P a') : ∀ b ∈ before ++ a' :: after, P b := by
  intro b hb
  obtain hb | rfl | hb : b ∈ before ∨ b = a' ∨ b ∈ after := by simpa using hb
  · exact h b (List.mem_append_left _ hb)
  · exact ha'
  · exact h b (List.mem_append_right _ (List.mem_cons_of_mem _ hb))

/-- The tree has the type, and its fields are columns of the schema. -/
structure TypedOver (schema : List ValueType) (e : Expr) (t : ValueType) : Prop where
  /-- The tree has the type. -/
  infer_eq : e.infer = .ok t
  /-- Its fields are columns of the schema. -/
  fieldsMatch : e.FieldsMatch schema

end Expr

/-- Where trees live: over the columns of a schema, with placeholders or without. -/
structure Scope where
  /-- Types of the columns. -/
  schema : List ValueType
  /-- Whether placeholders may occur. -/
  placeholders : Bool
  deriving DecidableEq, Repr

namespace Expr

/-- The tree has the type over the schema of the scope, and placeholders only if they may occur. -/
structure TypedIn (scope : Scope) (e : Expr) (t : ValueType) : Prop
    extends e.TypedOver scope.schema t where
  /-- No placeholder is left where none may occur. -/
  rootFree : scope.placeholders = false → e.RootFree

variable {scope : Scope}

/-- An application of a binary operator has a type in a scope exactly if its operands have types of
one of its signatures in it. -/
theorem typedIn_binary_iff {op : BinaryOp} {l r : Expr} {t : ValueType} :
    (binary op l r).TypedIn scope t ↔
      ∃ lt rt, l.TypedIn scope lt ∧ r.TypedIn scope rt ∧ op.resultType lt rt = some t := by
  constructor
  · rintro ⟨⟨ht, hfields⟩, hroots⟩
    obtain ⟨lt, rt, hl, hr, hop⟩ := infer_binary_eq_ok_iff.mp ht
    obtain ⟨hlf, hrf⟩ := fieldsMatch_binary.mp hfields
    exact ⟨lt, rt, ⟨⟨hl, hlf⟩, fun h => (rootFree_binary.mp (hroots h)).1⟩,
      ⟨⟨hr, hrf⟩, fun h => (rootFree_binary.mp (hroots h)).2⟩, hop⟩
  · rintro ⟨lt, rt, ⟨⟨hl, hlf⟩, hlr⟩, ⟨⟨hr, hrf⟩, hrr⟩, hop⟩
    exact ⟨⟨infer_binary_eq_ok_iff.mpr ⟨lt, rt, hl, hr, hop⟩, fieldsMatch_binary.mpr ⟨hlf, hrf⟩⟩,
      fun h => rootFree_binary.mpr ⟨hlr h, hrr h⟩⟩

/-- An application of a unary operator has a type in a scope exactly if its operand has a type of
one of its signatures in it. -/
theorem typedIn_unary_iff {op : UnaryOp} {a : Expr} {t : ValueType} :
    (unary op a).TypedIn scope t ↔ ∃ u, a.TypedIn scope u ∧ op.resultType u = some t := by
  constructor
  · rintro ⟨⟨ht, hfields⟩, hroots⟩
    obtain ⟨u, ha, hop⟩ := infer_unary_eq_ok_iff.mp ht
    exact ⟨u, ⟨⟨ha, fieldsMatch_unary.mp hfields⟩, fun h => rootFree_unary.mp (hroots h)⟩, hop⟩
  · rintro ⟨u, ⟨⟨ha, haf⟩, har⟩, hop⟩
    exact ⟨⟨infer_unary_eq_ok_iff.mpr ⟨u, ha, hop⟩, fieldsMatch_unary.mpr haf⟩,
      fun h => rootFree_unary.mpr (har h)⟩

/-- Every argument of a call with a type in a scope has a type in it. -/
theorem TypedIn.exists_of_mem_args {f : Func} {args : List Expr} {t : ValueType} {a : Expr}
    (h : (call f args).TypedIn scope t) (ha : a ∈ args) : ∃ u, a.TypedIn scope u := by
  obtain ⟨u, hu⟩ := exists_infer_of_mem_args h.infer_eq ha
  exact ⟨u, ⟨hu, fieldsMatch_call.mp h.fieldsMatch a ha⟩,
    fun hnone => rootFree_call.mp (h.rootFree hnone) a ha⟩

/-- An argument of a call can be replaced by one of the same type in the scope. -/
theorem TypedIn.replace_argument {f : Func} {before after : List Expr} {a a' : Expr}
    {t u : ValueType} (h : (call f (before ++ a :: after)).TypedIn scope t)
    (ha : a.TypedIn scope u) (ha' : a'.TypedIn scope u) :
    (call f (before ++ a' :: after)).TypedIn scope t where
  infer_eq := by
    rw [infer_argument_congr (ha'.infer_eq.trans ha.infer_eq.symm)]
    exact h.infer_eq
  fieldsMatch := fieldsMatch_call.mpr
    (forall_mem_replace (fieldsMatch_call.mp h.fieldsMatch) ha'.fieldsMatch)
  rootFree hnone := rootFree_call.mpr
    (forall_mem_replace (rootFree_call.mp (h.rootFree hnone)) (ha'.rootFree hnone))

end Expr

/-- The second tree has the type of the first one, if that has one. -/
def KeepsType (e e' : Expr) : Prop := ∀ t, e.infer = .ok t → e'.infer = .ok t

/-- The second tree can stand for the first one: over the schema it has the same type, and the same
values and faults on every row. -/
def KeepsMeaning (schema : List ValueType) (e e' : Expr) : Prop :=
  ∀ t, e.TypedOver schema t → e'.TypedOver schema t ∧
    ∀ row, row.map Value.type = schema → e'.evaluate row = e.evaluate row

/-- The second tree can stand for the first one in a scope: it has the same type in it, and the same
values and faults on every row of the schema. -/
def StandsFor (scope : Scope) (e e' : Expr) : Prop :=
  ∀ t, e.TypedIn scope t → e'.TypedIn scope t ∧
    ∀ row, row.map Value.type = scope.schema → e'.evaluate row = e.evaluate row

/-- A tree that keeps the meaning of another one stands for it where placeholders may occur. -/
theorem standsFor_iff_keepsMeaning {schema : List ValueType} {e e' : Expr} :
    StandsFor ⟨schema, true⟩ e e' ↔ KeepsMeaning schema e e' := by
  refine forall_congr' fun t => ⟨fun h ht => ?_, fun h ht => ?_⟩
  · obtain ⟨ht', heval⟩ := h ⟨ht, nofun⟩
    exact ⟨ht'.toTypedOver, heval⟩
  · obtain ⟨ht', heval⟩ := h ht.toTypedOver
    exact ⟨⟨ht', nofun⟩, heval⟩

namespace Rewrites

variable {step : Expr → Expr → Prop} {schema : List ValueType} {scope : Scope} {e e' : Expr}

/-- Rewriting by steps that keep the type of a node keeps the type of a tree. -/
theorem keepsType (hstep : ∀ node next, step node next → KeepsType node next)
    (h : Rewrites step e e') : KeepsType e e' := by
  intro t ht
  induction h generalizing t with
  | refl e => exact ht
  | trans _ _ ih ih' => exact ih' t (ih t ht)
  | top hs => exact hstep _ _ hs t ht
  | left _ ih =>
    obtain ⟨lt, rt, hl, hr, hop⟩ := Expr.infer_binary_eq_ok_iff.mp ht
    exact Expr.infer_binary_eq_ok_iff.mpr ⟨lt, rt, ih lt hl, hr, hop⟩
  | right _ ih =>
    obtain ⟨lt, rt, hl, hr, hop⟩ := Expr.infer_binary_eq_ok_iff.mp ht
    exact Expr.infer_binary_eq_ok_iff.mpr ⟨lt, rt, hl, ih rt hr, hop⟩
  | operand _ ih =>
    obtain ⟨u, ha, hop⟩ := Expr.infer_unary_eq_ok_iff.mp ht
    exact Expr.infer_unary_eq_ok_iff.mpr ⟨u, ih u ha, hop⟩
  | argument _ ih =>
    obtain ⟨u, hu⟩ := Expr.exists_infer_of_mem_args ht List.mem_append_cons_self
    rwa [Expr.infer_argument_congr ((ih u hu).trans hu.symm)]

/-- Rewriting by steps whose replacements stand for the nodes gives a tree that stands for the
tree. -/
theorem standsFor (hstep : ∀ node next, step node next → StandsFor scope node next)
    (h : Rewrites step e e') : StandsFor scope e e' := by
  intro t ht
  induction h generalizing t with
  | refl e => exact ⟨ht, fun row _ => rfl⟩
  | trans _ _ ih ih' =>
    obtain ⟨hmiddle, heval⟩ := ih t ht
    obtain ⟨hlast, heval'⟩ := ih' t hmiddle
    exact ⟨hlast, fun row hrow => (heval' row hrow).trans (heval row hrow)⟩
  | top hs => exact hstep _ _ hs t ht
  | left _ ih =>
    obtain ⟨lt, rt, hl, hr, hop⟩ := Expr.typedIn_binary_iff.mp ht
    obtain ⟨hl', heval⟩ := ih lt hl
    refine ⟨Expr.typedIn_binary_iff.mpr ⟨lt, rt, hl', hr, hop⟩, fun row hrow => ?_⟩
    rw [Expr.evaluate, Expr.evaluate, heval row hrow]
  | right _ ih =>
    obtain ⟨lt, rt, hl, hr, hop⟩ := Expr.typedIn_binary_iff.mp ht
    obtain ⟨hr', heval⟩ := ih rt hr
    refine ⟨Expr.typedIn_binary_iff.mpr ⟨lt, rt, hl, hr', hop⟩, fun row hrow => ?_⟩
    rw [Expr.evaluate, Expr.evaluate, heval row hrow]
  | operand _ ih =>
    obtain ⟨u, ha, hop⟩ := Expr.typedIn_unary_iff.mp ht
    obtain ⟨ha', heval⟩ := ih u ha
    refine ⟨Expr.typedIn_unary_iff.mpr ⟨u, ha', hop⟩, fun row hrow => ?_⟩
    rw [Expr.evaluate, Expr.evaluate, heval row hrow]
  | argument _ ih =>
    obtain ⟨u, hu⟩ := ht.exists_of_mem_args List.mem_append_cons_self
    obtain ⟨ha', heval⟩ := ih u hu
    exact ⟨ht.replace_argument hu ha',
      fun row hrow => Expr.evaluate_argument_congr (heval row hrow)⟩

/-- Rewriting by steps that keep the meaning of a node keeps the meaning of a tree. -/
theorem keepsMeaning (hstep : ∀ node next, step node next → KeepsMeaning schema node next)
    (h : Rewrites step e e') : KeepsMeaning schema e e' :=
  standsFor_iff_keepsMeaning.mp
    (h.standsFor fun node next hs => standsFor_iff_keepsMeaning.mpr (hstep node next hs))

end Rewrites

end QueryParity
