import QueryParity.Expr.Transform
import QueryParity.Proofs.Expr.Nodes

/-!
# Replacement with and without sharing

Replacement keeps track of what was not touched: a tree of which every node is declined is not
rebuilt. Forgetting this, replacement is the plain map from the leaves upwards that always builds a
node from its replaced children and then offers it.
-/

namespace QueryParity.Expr

variable {m : Type → Type} [Monad m]

/-- A node after it was offered to a step. -/
def replaced (step : Expr → m (Option Expr)) (node : Expr) : m Expr := do
  let replacement ← step node
  pure (replacement.getD node)

mutual

/-- The tree with every node built from its replaced children and then offered. -/
def rebuild (step : Expr → m (Option Expr)) : Expr → m Expr
  | .binary op l r => do
    let l' ← rebuild step l
    let r' ← rebuild step r
    replaced step (.binary op l' r')
  | .unary op a => do
    let a' ← rebuild step a
    replaced step (.unary op a')
  | .call f args => do
    let args' ← rebuildAll step args
    replaced step (.call f args')
  | .const v => replaced step (.const v)
  | .root i t => replaced step (.root i t)
  | .field c t => replaced step (.field c t)

/-- The trees with every node built from its replaced children and then offered. -/
def rebuildAll (step : Expr → m (Option Expr)) : List Expr → m (List Expr)
  | [] => pure []
  | e :: es => do
    let e' ← rebuild step e
    let es' ← rebuildAll step es
    pure (e' :: es')

end

variable [LawfulMonad m] {step : Expr → m (Option Expr)}

/-- A node that was offered is the replacement, or else what was rebuilt of it. -/
theorem getD_map_offer (node : Expr) (rebuilt : Option Expr) :
    (·.getD node) <$> offer step node rebuilt = replaced step (rebuilt.getD node) := by
  simp only [offer, replaced, map_eq_pure_bind, bind_assoc]
  refine bind_congr fun replacement => ?_
  cases replacement <;> simp

private theorem transformAll?_eq {es : List Expr}
    (ih : ∀ e ∈ es, (·.getD e) <$> transform? step e = rebuild step e) :
    (·.getD es) <$> transformAll? step es = rebuildAll step es := by
  induction es with
  | nil => simp [transformAll?, rebuildAll]
  | cons e es ihs =>
    have htail := ihs fun a ha => ih a (List.mem_cons_of_mem _ ha)
    rw [transformAll?, rebuildAll, ← ih e List.mem_cons_self, ← htail]
    simp only [map_eq_pure_bind, bind_assoc, pure_bind]
    refine bind_congr fun e' => bind_congr fun es' => ?_
    cases e' <;> cases es' <;> rfl

/-- Replacement with sharing is the plain map from the leaves upwards. -/
theorem getD_map_transform? (e : Expr) :
    (·.getD e) <$> transform? step e = rebuild step e := by
  induction e with
  | const v => rw [transform?, rebuild, getD_map_offer]; rfl
  | root i t => rw [transform?, rebuild, getD_map_offer]; rfl
  | field c t => rw [transform?, rebuild, getD_map_offer]; rfl
  | binary op l r ihl ihr =>
    rw [transform?, rebuild, ← ihl, ← ihr]
    simp only [map_eq_pure_bind, bind_assoc, pure_bind]
    refine bind_congr fun l' => bind_congr fun r' => ?_
    rw [← map_eq_pure_bind, getD_map_offer]
    cases l' <;> cases r' <;> rfl
  | unary op a ih =>
    rw [transform?, rebuild, ← ih]
    simp only [map_eq_pure_bind, bind_assoc, pure_bind]
    refine bind_congr fun a' => ?_
    rw [← map_eq_pure_bind, getD_map_offer]
    cases a' <;> rfl
  | call f args ih =>
    rw [transform?, rebuild, ← transformAll?_eq ih]
    simp only [map_eq_pure_bind, bind_assoc, pure_bind]
    refine bind_congr fun args' => ?_
    rw [← map_eq_pure_bind, getD_map_offer]
    cases args' <;> rfl

/-- Replacement is the plain map from the leaves upwards. -/
theorem transform_eq_rebuild (e : Expr) : transform step e = rebuild step e := by
  rw [← getD_map_transform?, transform, map_eq_pure_bind]

private theorem transformAll?_eq_none {es : List Expr}
    (ih : ∀ e ∈ es, transform? step e = pure none) : transformAll? step es = pure none := by
  induction es with
  | nil => rfl
  | cons e es ihs =>
    rw [List.forall_mem_cons] at ih
    rw [transformAll?, ih.1, ihs ih.2, pure_bind, pure_bind]
    rfl

/-- A node that is declined is what was rebuilt of it, if anything was. -/
theorem offer_of_declined {node : Expr} {rebuilt : Option Expr}
    (h : step (rebuilt.getD node) = pure none) : offer step node rebuilt = pure rebuilt := by
  rw [offer, h, pure_bind]

/-- A tree whose nodes are all declined is not rebuilt. -/
theorem transform?_eq_none {e : Expr} (h : ∀ node ∈ e.preorder, step node = pure none) :
    transform? step e = pure none := by
  have htop := h e (self_mem_preorder e)
  induction e with
  | const v | root i t | field c t => exact offer_of_declined htop
  | binary op l r ihl ihr =>
    have hl : ∀ node ∈ l.preorder, step node = pure none := fun node hnode =>
      h node (mem_preorder_binary.mpr (.inr (.inl hnode)))
    have hr : ∀ node ∈ r.preorder, step node = pure none := fun node hnode =>
      h node (mem_preorder_binary.mpr (.inr (.inr hnode)))
    rw [transform?, ihl hl (hl l (self_mem_preorder l)), ihr hr (hr r (self_mem_preorder r)),
      pure_bind, pure_bind]
    exact offer_of_declined htop
  | unary op a ih =>
    have ha : ∀ node ∈ a.preorder, step node = pure none := fun node hnode =>
      h node (mem_preorder_unary.mpr (.inr hnode))
    rw [transform?, ih ha (ha a (self_mem_preorder a)), pure_bind]
    exact offer_of_declined htop
  | call f args ih =>
    have hargs : ∀ a ∈ args, transform? step a = pure none := by
      intro a ha
      have hnodes : ∀ node ∈ a.preorder, step node = pure none := fun node hnode =>
        h node (mem_preorder_of_mem_args ha hnode)
      exact ih a ha hnodes (hnodes a (self_mem_preorder a))
    rw [transform?, transformAll?_eq_none hargs, pure_bind]
    exact offer_of_declined htop

/-- There are as many replaced trees as trees. -/
theorem rebuildAll_bind_congr {α : Type} (es : List Expr) {k k' : List Expr → m α}
    (h : ∀ es', es'.length = es.length → k es' = k' es') :
    (rebuildAll step es >>= k) = rebuildAll step es >>= k' := by
  induction es generalizing k k' with
  | nil =>
    rw [rebuildAll, pure_bind, pure_bind]
    exact h [] rfl
  | cons e es ih =>
    rw [rebuildAll]
    simp only [bind_assoc, pure_bind]
    refine bind_congr fun e' => ih fun es' hes' => h (e' :: es') ?_
    rw [List.length_cons, List.length_cons, hes']

/-- Every node is built from its replaced children and then offered. -/
theorem rebuild_eq (e : Expr) :
    rebuild step e =
      rebuildAll step e.children >>= fun es => replaced step (e.withChildren es) := by
  cases e with
  | binary op l r =>
    simp only [rebuild, children, rebuildAll, bind_assoc, pure_bind]
    rfl
  | unary op a =>
    simp only [rebuild, children, rebuildAll, bind_assoc, pure_bind]
    rfl
  | call f args =>
    rw [rebuild, children]
    refine rebuildAll_bind_congr args fun args' hargs' => ?_
    rw [withChildren, ← hargs', List.take_length, hargs', List.drop_length, List.append_nil]
  | const v | root i t | field c t =>
    change _ = pure [] >>= _
    rw [pure_bind]
    rfl

/-- There are as many trees after replacement as before. -/
theorem transformAll?_bind_congr {α : Type} (es : List Expr) {k k' : Option (List Expr) → m α}
    (h : ∀ es' : Option (List Expr), (es'.getD es).length = es.length → k es' = k' es') :
    (transformAll? step es >>= k) = transformAll? step es >>= k' := by
  induction es generalizing k k' with
  | nil =>
    rw [transformAll?, pure_bind, pure_bind]
    exact h none rfl
  | cons e es ih =>
    rw [transformAll?]
    simp only [bind_assoc, pure_bind]
    refine bind_congr fun e' => ih fun es' hes' => h _ ?_
    split
    · rfl
    · rw [Option.getD_some, List.length_cons, List.length_cons, hes']

/-- The children of a node are replaced from left to right. If one of them was touched, the node is
built over all of them, and then it is offered. -/
theorem transform?_eq (e : Expr) :
    transform? step e =
      transformAll? step e.children >>= fun es' => offer step e (es'.map e.withChildren) := by
  cases e with
  | binary op l r =>
    simp only [transform?, children, transformAll?, bind_assoc, pure_bind]
    refine bind_congr fun l' => bind_congr fun r' => ?_
    cases l' <;> cases r' <;> rfl
  | unary op a =>
    simp only [transform?, children, transformAll?, bind_assoc, pure_bind]
    refine bind_congr fun a' => ?_
    cases a' <;> rfl
  | call f args =>
    rw [transform?, children]
    refine transformAll?_bind_congr args fun args' hargs' => ?_
    cases args' with
    | none => rfl
    | some args' =>
      rw [Option.getD_some] at hargs'
      rw [Option.map_some, Option.map_some, withChildren, ← hargs', List.take_length, hargs',
        List.drop_length, List.append_nil]
  | const v | root i t | field c t =>
    change _ = pure none >>= _
    rw [pure_bind]
    rfl
end QueryParity.Expr
