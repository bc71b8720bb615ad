import Mathlib.Data.List.Forall2
import QueryParity.Lowering
import QueryParity.Proofs.Expr.Transform

/-!
# Rewriting at any node

What a lowering does to a tree is a sequence of steps, each of which replaces one node by what a
rule offers for it. A property of the lowered tree is therefore one of the rules: it has to hold of
every offer and to pass from a part of a tree to the whole.
-/

namespace QueryParity

/-- A tree becomes another one by steps at any of its nodes. -/
inductive Rewrites (step : Expr → Expr → Prop) : Expr → Expr → Prop where
  /-- No step. -/
  | refl (e : Expr) : Rewrites step e e
  /-- Steps one after the other. -/
  | trans {e f g : Expr} : Rewrites step e f → Rewrites step f g → Rewrites step e g
  /-- A step at the top of the tree. -/
  | top {e next : Expr} : step e next → Rewrites step e next
  /-- Steps in the left operand. -/
  | left {op : BinaryOp} {l l' r : Expr} : Rewrites step l l' →
      Rewrites step (.binary op l r) (.binary op l' r)
  /-- Steps in the right operand. -/
  | right {op : BinaryOp} {l r r' : Expr} : Rewrites step r r' →
      Rewrites step (.binary op l r) (.binary op l r')
  /-- Steps in the operand. -/
  | operand {op : UnaryOp} {a a' : Expr} : Rewrites step a a' →
      Rewrites step (.unary op a) (.unary op a')
  /-- Steps in one argument. -/
  | argument {f : Func} {before after : List Expr} {a a' : Expr} : Rewrites step a a' →
      Rewrites step (.call f (before ++ a :: after)) (.call f (before ++ a' :: after))

namespace Rewrites

variable {step : Expr → Expr → Prop}

/-- Steps that are allowed are steps of any kind that allows more. -/
theorem mono {more : Expr → Expr → Prop} {e e' : Expr} (h : Rewrites step e e')
    (hmore : ∀ node next, step node next → more node next) : Rewrites more e e' := by
  induction h with
  | refl e => exact .refl e
  | trans _ _ ih ih' => exact ih.trans ih'
  | top hstep => exact .top (hmore _ _ hstep)
  | left _ ih => exact ih.left
  | right _ ih => exact ih.right
  | operand _ ih => exact ih.operand
  | argument _ ih => exact ih.argument

/-- The arguments of a call are rewritten one after the other. -/
theorem arguments {f : Func} {args args' : List Expr}
    (h : List.Forall₂ (Rewrites step) args args') :
    Rewrites step (.call f args) (.call f args') := by
  have hbefore : ∀ before,
      Rewrites step (.call f (before ++ args)) (.call f (before ++ args')) := by
    induction h with
    | nil => exact fun before => .refl _
    | @cons a a' rest rest' ha _ ih =>
      intro before
      refine .trans (.argument ha) ?_
      have hrest := ih (before ++ [a'])
      rwa [List.append_assoc, List.append_assoc, List.singleton_append, List.singleton_append]
        at hrest
  exact hbefore []

end Rewrites

namespace Lowering

variable {l : Lowering}

/-- One of the rules offers the replacement for the node. -/
def Offers (l : Lowering) (node next : Expr) : Prop :=
  ∃ rule ∈ l.rules, rule.replace? node = some next

/-- The first match is an offer. -/
theorem offers_of_firstMatch? {node next : Expr} {name : String}
    (h : l.firstMatch? node = some (name, next)) : l.Offers node next := by
  obtain ⟨rule, hrule, hreplace⟩ := List.exists_of_findSome?_eq_some h
  obtain ⟨offered, hoffered, hpair⟩ := Option.map_eq_some_iff.mp hreplace
  obtain rfl : offered = next := (Prod.mk.inj hpair).2
  exact ⟨rule, hrule, hoffered⟩

/-- A node settles by offers. -/
theorem rewrites_settle? (steps : Nat) (node : Expr) :
    Rewrites l.Offers node ((l.settle? steps node).value.getD node) := by
  induction steps generalizing node with
  | zero => exact .refl node
  | succ steps ih =>
    rw [settle?]
    cases hmatch : l.firstMatch? node with
    | none => exact .refl node
    | some found => exact .trans (.top (offers_of_firstMatch? hmatch)) (ih found.2)

/-- The replacement at a node is the one it settles on. -/
theorem value_lowerNode? (node : Expr) :
    (l.lowerNode? node).value = (l.settle? l.maxSteps node).value := by
  rw [lowerNode?, Logged.value_bind]
  split
  · split <;> rfl
  · rfl

/-- A node to which the rules were applied is rewritten. -/
theorem rewrites_replaced (node : Expr) :
    Rewrites l.Offers node (Expr.replaced l.lowerNode? node).value := by
  rw [Expr.replaced, Logged.value_bind, Logged.value_pure, value_lowerNode?]
  exact rewrites_settle? _ node

/-- Several trees are rebuilt one by one. -/
theorem value_rebuildAll {ε : Type} {step : Expr → Logged ε (Option Expr)} (args : List Expr) :
    (Expr.rebuildAll step args).value = args.map fun a => (Expr.rebuild step a).value := by
  induction args with
  | nil => rfl
  | cons a args ih => rw [Expr.rebuildAll, List.map_cons, ← ih]; rfl

/-- A tree is lowered by offers of the rules. -/
theorem rewrites_lower (e : Expr) : Rewrites l.Offers e (l.lower e).value := by
  rw [lower, Expr.transform_eq_rebuild]
  induction e with
  | const v => exact rewrites_replaced _
  | root i t => exact rewrites_replaced _
  | field c t => exact rewrites_replaced _
  | binary op a b iha ihb =>
    exact .trans (.left iha) (.trans (.right ihb) (rewrites_replaced _))
  | unary op a ih => exact .trans (.operand ih) (rewrites_replaced _)
  | call f args ih =>
    refine .trans (.arguments ?_) (rewrites_replaced _)
    rw [value_rebuildAll, List.forall₂_map_right_iff, List.forall₂_same]
    exact ih

end Lowering

end QueryParity
