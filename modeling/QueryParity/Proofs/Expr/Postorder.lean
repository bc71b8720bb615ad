import Mathlib.Data.List.Perm.Basic
import QueryParity.Proofs.Expr.Transform
import QueryParity.Proofs.Expr.Walk

/-!
# Nodes after their children

In postorder every node comes after its children, which come from left to right. Replacement visits
the nodes in this order, and a stack is enough to follow it: a node takes its replaced children off
the stack, is offered over them, and what it is replaced by is put on the stack.
-/

namespace QueryParity.Expr

mutual

/-- The nodes of a tree, each after its children and those from left to right. -/
def postorder : Expr → List Expr
  | .binary op l r => l.postorder ++ (r.postorder ++ [.binary op l r])
  | .unary op a => a.postorder ++ [.unary op a]
  | .call f args => postorderAll args ++ [.call f args]
  | leaf => [leaf]

/-- The nodes of several trees, tree by tree. -/
def postorderAll : List Expr → List Expr
  | [] => []
  | e :: es => e.postorder ++ postorderAll es

end

/-- The nodes of several trees are their nodes in a row. -/
theorem postorderAll_eq_flatMap (es : List Expr) : postorderAll es = es.flatMap postorder := by
  induction es with
  | nil => rfl
  | cons e es ih => rw [postorderAll, ih, List.flatMap_cons]

/-- The nodes of a tree are the nodes of its children and then the tree. -/
theorem postorder_eq (e : Expr) : e.postorder = e.children.flatMap postorder ++ [e] := by
  cases e with
  | binary op l r => simp [postorder, children]
  | unary op a => simp [postorder, children]
  | call f args => rw [postorder, postorderAll_eq_flatMap, children]
  | _ => rfl

/-- The two orders list the same nodes, each as often. -/
theorem postorder_perm_preorder (e : Expr) : e.postorder.Perm e.preorder := by
  induction e using children_induction with
  | node e ih =>
    rw [postorder_eq, preorder_eq]
    have hbelow : (e.children.flatMap postorder).Perm (e.children.flatMap preorder) :=
      List.Perm.flatMap_left _ ih
    exact (List.perm_append_singleton e _).trans (hbelow.cons e)

/-- A tree has as many nodes as are listed in postorder. -/
theorem length_postorder (e : Expr) : e.postorder.length = e.nodeCount := by
  rw [(postorder_perm_preorder e).length_eq, length_preorder, nodeCount_eq_size]

section Stack

variable {m : Type → Type} [Monad m]

/-- A node over the children that are on top of a stack, the last of them topmost. -/
def overStack (node : Expr) (stack : List Expr) : Expr :=
  node.withChildren (stack.take node.children.length).reverse

/-- Take the children of a node off a stack, offer the node over them and put it on the stack. -/
def reduce (step : Expr → m (Option Expr)) (stack : List Expr) (node : Expr) : m (List Expr) := do
  let node' ← replaced step (node.overStack stack)
  pure (node' :: stack.drop node.children.length)

variable [LawfulMonad m] {step : Expr → m (Option Expr)}

/-- A node over replaced children that were put on a stack. -/
theorem overStack_reverse_append {node : Expr} {children' : List Expr} (stack : List Expr)
    (h : children'.length = node.children.length) :
    node.overStack (children'.reverse ++ stack) = node.withChildren children' := by
  have hlength : node.children.length = children'.reverse.length := by
    rw [List.length_reverse, h]
  rw [overStack, hlength, List.take_left, List.reverse_reverse]

/-- The node takes them off the stack. -/
theorem reduce_reverse_append {node : Expr} {children' : List Expr} (stack : List Expr)
    (h : children'.length = node.children.length) :
    reduce step (children'.reverse ++ stack) node =
      (· :: stack) <$> replaced step (node.withChildren children') := by
  have hlength : node.children.length = children'.reverse.length := by
    rw [List.length_reverse, h]
  rw [reduce, overStack_reverse_append stack h, hlength, List.drop_left, map_eq_pure_bind]

/-- The nodes of several trees put the replaced trees on a stack, the last of them topmost. -/
theorem foldlM_reduce_flatMap {es : List Expr}
    (ih : ∀ e ∈ es, ∀ stack, e.postorder.foldlM (reduce step) stack =
      (· :: stack) <$> rebuild step e) (stack : List Expr) :
    (es.flatMap postorder).foldlM (reduce step) stack =
      (fun es' => es'.reverse ++ stack) <$> rebuildAll step es := by
  induction es generalizing stack with
  | nil =>
    rw [rebuildAll, map_pure]
    rfl
  | cons e es ihs =>
    rw [List.forall_mem_cons] at ih
    rw [List.flatMap_cons, List.foldlM_append, ih.1, rebuildAll]
    simp only [map_eq_pure_bind, bind_assoc, pure_bind]
    refine bind_congr fun e' => ?_
    rw [ihs ih.2, map_eq_pure_bind]
    refine bind_congr fun es' => ?_
    rw [List.reverse_cons, List.append_assoc, List.singleton_append]

/-- The nodes of a tree in postorder put the replaced tree on a stack. -/
theorem foldlM_reduce_postorder (e : Expr) (stack : List Expr) :
    e.postorder.foldlM (reduce step) stack = (· :: stack) <$> transform step e := by
  rw [transform_eq_rebuild]
  induction e using children_induction generalizing stack with
  | node e ih =>
    rw [postorder_eq, List.foldlM_append, foldlM_reduce_flatMap ih, rebuild_eq]
    simp only [map_eq_pure_bind, bind_assoc, pure_bind]
    refine rebuildAll_bind_congr e.children fun es' hlength => ?_
    rw [List.foldlM_cons, reduce_reverse_append stack hlength]
    simp only [List.foldlM_nil, map_eq_pure_bind, bind_assoc, pure_bind]

end Stack

end QueryParity.Expr
