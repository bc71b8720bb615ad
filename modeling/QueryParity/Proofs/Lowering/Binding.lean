import QueryParity.Proofs.Expr.MapRoots
import QueryParity.Proofs.Expr.Walk
import QueryParity.Proofs.Lowering.Standard

/-!
# Rewriting and binding

Rewriting does not look at placeholders. If steps stay steps when placeholders are bound, a
rewritten tree can be bound as the tree itself, and the bound trees are again related by rewriting.
The steps of the standard rules are of this kind, and they keep the placeholders of a tree.
-/

namespace QueryParity

namespace Rewrites

variable {step : Expr → Expr → Prop} {e e' : Expr}

/-- Steps that stay steps when placeholders are bound rewrite the bound tree. -/
theorem mapRoots {f : Nat → ValueType → Expr}
    (hstep : ∀ node next, step node next → step (node.mapRoots f) (next.mapRoots f))
    (h : Rewrites step e e') : Rewrites step (e.mapRoots f) (e'.mapRoots f) := by
  induction h with
  | refl e => exact .refl _
  | trans _ _ ih ih' => exact ih.trans ih'
  | top hs => exact .top (hstep _ _ hs)
  | left _ ih => exact ih.left
  | right _ ih => exact ih.right
  | operand _ ih => exact ih.operand
  | argument _ ih =>
    rw [Expr.mapRoots, Expr.mapRoots, Expr.mapRootsAll_eq_map, Expr.mapRootsAll_eq_map,
      List.map_append, List.map_append, List.map_cons, List.map_cons]
    exact ih.argument

/-- Steps that keep the placeholders of a node keep those of a tree, in their order. -/
theorem roots_eq (hstep : ∀ node next, step node next → next.roots = node.roots)
    (h : Rewrites step e e') : e'.roots = e.roots := by
  induction h with
  | refl e => rfl
  | trans _ _ ih ih' => exact ih'.trans ih
  | top hs => exact hstep _ _ hs
  | left _ ih | right _ ih => rw [Expr.roots_binary, Expr.roots_binary, ih]
  | operand _ ih => rw [Expr.roots_unary, Expr.roots_unary, ih]
  | argument _ ih =>
    rw [Expr.roots_call, Expr.roots_call, List.flatMap_append, List.flatMap_append,
      List.flatMap_cons, List.flatMap_cons, ih]

end Rewrites

namespace StandardStep

variable {node next : Expr}

/-- A step of the standard rules stays one when placeholders are bound. -/
theorem mapRoots {f : Nat → ValueType → Expr} (h : StandardStep node next) :
    StandardStep (node.mapRoots f) (next.mapRoots f) := by
  cases h with
  | equality hplain => exact .equality hplain
  | start hplain hp => exact .start hplain hp
  | tail hplain hp => exact .tail hplain hp
  | utc => exact .utc

/-- A step of the standard rules keeps the placeholders of the node. -/
theorem roots_eq (h : StandardStep node next) : next.roots = node.roots := by
  cases h <;> simp [Expr.like, Expr.equal, Expr.startsWith, Expr.endsWith, Expr.stringLit,
    Expr.atUtc, Expr.atTimeZone]

end StandardStep

/-- Lowering by the standard rules keeps the placeholders of a tree, in their order. -/
theorem roots_standard (e : Expr) : (Lowering.standard.lower e).value.roots = e.roots :=
  (rewrites_standard e).roots_eq fun _ _ hstep => hstep.roots_eq

end QueryParity
