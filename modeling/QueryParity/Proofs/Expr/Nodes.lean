import QueryParity.Expr.Measure
import QueryParity.Fault

/-!
# The nodes of a tree

What holds of every node of a tree holds of every node of its parts. Two properties of this kind
recur: that no placeholder is left, and that every field is declared as the column of its number
is.
-/

namespace QueryParity.Expr

variable {schema : List ValueType}

/-- Induction on trees, with a hypothesis for every child. -/
theorem children_induction {motive : Expr → Prop}
    (node : ∀ e : Expr, (∀ child ∈ e.children, motive child) → motive e) (e : Expr) : motive e := by
  induction e with
  | const v | root i t | field c t => exact node _ nofun
  | binary op l r ihl ihr =>
    refine node _ fun child hchild => ?_
    rw [children, List.mem_cons, List.mem_singleton] at hchild
    obtain rfl | rfl := hchild
    · exact ihl
    · exact ihr
  | unary op a ih =>
    refine node _ fun child hchild => ?_
    rw [children, List.mem_singleton] at hchild
    exact hchild ▸ ih
  | call f args ih => exact node _ ih

/-- The nodes of several trees are the nodes of each. -/
theorem mem_preorderAll {n : Expr} {es : List Expr} :
    n ∈ preorderAll es ↔ ∃ e ∈ es, n ∈ e.preorder := by
  induction es with
  | nil => simp [preorderAll]
  | cons e es ih => simp [preorderAll, ih]

/-- A tree is the first of its nodes. -/
theorem self_mem_preorder (e : Expr) : e ∈ e.preorder := by
  cases e <;> exact List.mem_cons_self

@[simp] theorem mem_preorder_const {n : Expr} {v : Value} :
    n ∈ (const v).preorder ↔ n = .const v := List.mem_singleton

@[simp] theorem mem_preorder_root {n : Expr} {i : Nat} {t : ValueType} :
    n ∈ (root i t).preorder ↔ n = .root i t := List.mem_singleton

@[simp] theorem mem_preorder_field {n : Expr} {c : Nat} {t : ValueType} :
    n ∈ (field c t).preorder ↔ n = .field c t := List.mem_singleton

@[simp] theorem mem_preorder_binary {n l r : Expr} {op : BinaryOp} :
    n ∈ (binary op l r).preorder ↔ n = .binary op l r ∨ n ∈ l.preorder ∨ n ∈ r.preorder :=
  List.mem_cons.trans (or_congr_right List.mem_append)

@[simp] theorem mem_preorder_unary {n a : Expr} {op : UnaryOp} :
    n ∈ (unary op a).preorder ↔ n = .unary op a ∨ n ∈ a.preorder := List.mem_cons

@[simp] theorem mem_preorder_call {n : Expr} {f : Func} {args : List Expr} :
    n ∈ (call f args).preorder ↔ n = .call f args ∨ ∃ a ∈ args, n ∈ a.preorder :=
  List.mem_cons.trans (or_congr_right mem_preorderAll)

/-- A node of an argument is one of the call. -/
theorem mem_preorder_of_mem_args {n a : Expr} {f : Func} {args : List Expr} (ha : a ∈ args)
    (hn : n ∈ a.preorder) : n ∈ (call f args).preorder :=
  mem_preorder_call.mpr (.inr ⟨a, ha, hn⟩)

/-- The nodes of a tree are the tree and the nodes of its children. -/
theorem mem_preorder_iff {n e : Expr} :
    n ∈ e.preorder ↔ n = e ∨ ∃ child ∈ e.children, n ∈ child.preorder := by
  cases e <;> simp [children]

/-- The nodes of a node of a tree are nodes of the tree. -/
theorem mem_preorder_trans {m n e : Expr} (hm : m ∈ n.preorder) (hn : n ∈ e.preorder) :
    m ∈ e.preorder := by
  induction e using children_induction with
  | node e ih =>
    obtain rfl | ⟨child, hchild, hn⟩ := mem_preorder_iff.mp hn
    · exact hm
    · exact mem_preorder_iff.mpr (.inr ⟨child, hchild, ih child hchild hn⟩)

/-- No placeholder is left in a tree. -/
def RootFree (e : Expr) : Prop := ∀ index type, .root index type ∉ e.preorder

/-- Every field of a tree names a column of the schema, with the type of that column. -/
def FieldsMatch (schema : List ValueType) (e : Expr) : Prop :=
  ∀ column type, .field column type ∈ e.preorder → schema[column]? = some type

/-- A tree over the columns of a schema: no placeholder is left, and the fields match. -/
structure Fits (schema : List ValueType) (e : Expr) : Prop where
  /-- No placeholder is left. -/
  rootFree : e.RootFree
  /-- The fields match. -/
  fieldsMatch : e.FieldsMatch schema

/-- Whether a node that is a field matches the schema. -/
def matchesSchema (schema : List ValueType) : Expr → Bool
  | .field column type => schema[column]? = some type
  | _ => true

instance (e : Expr) : Decidable e.RootFree :=
  decidable_of_iff (∀ n ∈ e.preorder, n.root? = none) <| by
    constructor
    · intro h i t hm
      cases h _ hm
    · intro h n hn
      cases n with
      | root i t => exact absurd hn (h i t)
      | _ => rfl

instance (e : Expr) : Decidable (e.FieldsMatch schema) :=
  decidable_of_iff (∀ n ∈ e.preorder, n.matchesSchema schema = true) <| by
    constructor
    · intro h c t hm
      exact of_decide_eq_true (h _ hm)
    · intro h n hn
      cases n with
      | field c t => exact decide_eq_true (h c t hn)
      | _ => rfl

@[simp] theorem rootFree_const {v : Value} : (const v).RootFree := by
  intro i t
  simp

@[simp] theorem not_rootFree_root {i : Nat} {t : ValueType} : ¬ (root i t).RootFree :=
  fun h => h i t (by simp)

@[simp] theorem rootFree_field {c : Nat} {t : ValueType} : (field c t).RootFree := by
  intro i t
  simp

@[simp] theorem rootFree_binary {op : BinaryOp} {l r : Expr} :
    (binary op l r).RootFree ↔ l.RootFree ∧ r.RootFree := by
  simp [RootFree, forall_and]

@[simp] theorem rootFree_unary {op : UnaryOp} {a : Expr} :
    (unary op a).RootFree ↔ a.RootFree := by
  simp [RootFree]

@[simp] theorem rootFree_call {f : Func} {args : List Expr} :
    (call f args).RootFree ↔ ∀ a ∈ args, a.RootFree := by
  simp only [RootFree, mem_preorder_call, reduceCtorEq, false_or, not_exists, not_and]
  exact ⟨fun h a ha i t => h i t a ha, fun h i t a ha => h a ha i t⟩

@[simp] theorem fieldsMatch_const {v : Value} : (const v).FieldsMatch schema := by
  simp [FieldsMatch]

@[simp] theorem fieldsMatch_root {i : Nat} {t : ValueType} : (root i t).FieldsMatch schema := by
  simp [FieldsMatch]

@[simp] theorem fieldsMatch_field {c : Nat} {t : ValueType} :
    (field c t).FieldsMatch schema ↔ schema[c]? = some t := by
  constructor
  · intro h
    exact h c t (by simp)
  · intro h c' t' hm
    cases mem_preorder_field.mp hm
    exact h

@[simp] theorem fieldsMatch_binary {op : BinaryOp} {l r : Expr} :
    (binary op l r).FieldsMatch schema ↔ l.FieldsMatch schema ∧ r.FieldsMatch schema := by
  simp only [FieldsMatch, mem_preorder_binary, reduceCtorEq, false_or]
  exact ⟨fun h => ⟨fun c t hl => h c t (.inl hl), fun c t hr => h c t (.inr hr)⟩,
    fun h c t => fun | .inl hl => h.1 c t hl | .inr hr => h.2 c t hr⟩

@[simp] theorem fieldsMatch_unary {op : UnaryOp} {a : Expr} :
    (unary op a).FieldsMatch schema ↔ a.FieldsMatch schema := by
  simp [FieldsMatch]

@[simp] theorem fieldsMatch_call {f : Func} {args : List Expr} :
    (call f args).FieldsMatch schema ↔ ∀ a ∈ args, a.FieldsMatch schema := by
  simp only [FieldsMatch, mem_preorder_call, reduceCtorEq, false_or, forall_exists_index, and_imp]
  exact ⟨fun h a ha c t => h c t a ha, fun h c t a ha => h a ha c t⟩

/-- The fields of a node of a tree match if those of the tree do. -/
theorem FieldsMatch.of_mem_preorder {e n : Expr}
    (h : e.FieldsMatch schema) (hn : n ∈ e.preorder) : n.FieldsMatch schema :=
  fun c t hm => h c t (mem_preorder_trans hm hn)

/-- A tree fits a schema if both parts of the property hold. -/
theorem fits_iff {e : Expr} : e.Fits schema ↔ e.RootFree ∧ e.FieldsMatch schema :=
  ⟨fun h => ⟨h.rootFree, h.fieldsMatch⟩, fun h => ⟨h.1, h.2⟩⟩

instance (e : Expr) : Decidable (e.Fits schema) := decidable_of_iff _ fits_iff.symm

end QueryParity.Expr
