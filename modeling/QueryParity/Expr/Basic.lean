import QueryParity.Operator
import QueryParity.Value

/-!
# Expression trees

A tree is a constant, a root placeholder that a substitution binds later, an access to a column of
the current row, or an operator or function applied to smaller trees. Trees may be ill typed, and
a call may have any number of arguments.
-/

namespace QueryParity

/-- Placeholders and columns are numbered below this limit. -/
def indexLimit : Nat := 65536

/-- A tree over the operator algebra. -/
inductive Expr where
  | const (v : Value)
  /-- Placeholder with the number `index`, standing for a value of the given type. -/
  | root (index : Nat) (type : ValueType)
  /-- The value of a column of the current row, declared to have the given type. -/
  | field (column : Nat) (type : ValueType)
  | binary (op : BinaryOp) (lhs rhs : Expr)
  | unary (op : UnaryOp) (operand : Expr)
  | call (f : Func) (args : List Expr)
  deriving Repr, Inhabited

/-- The outermost constructor of a tree. -/
inductive NodeKind where
  | constant
  | root
  | field
  | binary
  | unary
  | call
  deriving DecidableEq, Repr, Inhabited

namespace Expr

/-- Induction on trees, with a hypothesis for every argument of a call. -/
@[elab_as_elim, induction_eliminator]
theorem induction {motive : Expr → Prop}
    (const : ∀ v, motive (.const v))
    (root : ∀ i t, motive (.root i t))
    (field : ∀ c t, motive (.field c t))
    (binary : ∀ op l r, motive l → motive r → motive (.binary op l r))
    (unary : ∀ op a, motive a → motive (.unary op a))
    (call : ∀ f args, (∀ a ∈ args, motive a) → motive (.call f args)) (e : Expr) : motive e :=
  Expr.rec (motive_2 := fun args => ∀ a ∈ args, motive a) const root field binary unary call
    (fun _ h => absurd h List.not_mem_nil)
    (fun _ _ hd tl _ h => (List.mem_cons.mp h).elim (fun e => e ▸ hd) (tl _)) e

/-- The kind of the topmost node. -/
def kind : Expr → NodeKind
  | .const _ => .constant
  | .root _ _ => .root
  | .field _ _ => .field
  | .binary _ _ _ => .binary
  | .unary _ _ => .unary
  | .call _ _ => .call

/-- Direct children, left to right. -/
def children : Expr → List Expr
  | .binary _ l r => [l, r]
  | .unary _ a => [a]
  | .call _ args => args
  | _ => []

/-- The same node over new children. A child that `new` does not reach keeps its place, and
surplus trees in `new` are ignored. -/
def withChildren (e : Expr) (new : List Expr) : Expr :=
  match e with
  | .binary op l r => .binary op (new[0]?.getD l) (new[1]?.getD r)
  | .unary op a => .unary op (new[0]?.getD a)
  | .call f args => .call f (new.take args.length ++ args.drop new.length)
  | leaf => leaf

/-- A node over its own children is itself. -/
@[simp] theorem withChildren_children (e : Expr) : e.withChildren e.children = e := by
  cases e <;> simp [withChildren, children]

/-- As many new trees as there are children replace all of them. -/
theorem children_withChildren {e : Expr} {new : List Expr} (h : new.length = e.children.length) :
    (e.withChildren new).children = new := by
  cases e with
  | binary op l r =>
    match new, h with
    | [a, b], _ => rfl
  | unary op a =>
    match new, h with
    | [b], _ => rfl
  | call f args =>
    simp only [children] at h
    simp [withChildren, children, ← h, List.drop_of_length_le (Nat.le_of_eq h.symm)]
  | _ => simp_all [withChildren, children]

/-- New children leave the kind of a node as it is. -/
@[simp] theorem kind_withChildren (e : Expr) (new : List Expr) :
    (e.withChildren new).kind = e.kind := by
  cases e <;> rfl

mutual

/-- Number of nodes. -/
def size : Expr → Nat
  | .binary _ l r => 1 + (l.size + r.size)
  | .unary _ a => 1 + a.size
  | .call _ args => 1 + sizeAll args
  | _ => 1

/-- Number of nodes in a list of trees. -/
def sizeAll : List Expr → Nat
  | [] => 0
  | e :: es => e.size + sizeAll es

end

/-- The nodes of a list of trees are counted tree by tree. -/
theorem sizeAll_append (es fs : List Expr) : sizeAll (es ++ fs) = sizeAll es + sizeAll fs := by
  induction es with
  | nil => simp [sizeAll]
  | cons e es ih =>
    rw [List.cons_append, sizeAll, sizeAll, ih]
    omega

/-- A node counts once more than its children together. -/
theorem size_eq (e : Expr) : e.size = 1 + sizeAll e.children := by
  cases e <;> simp [size, sizeAll, children]

end Expr

end QueryParity
