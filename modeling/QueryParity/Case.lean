import QueryParity.Failure
import QueryParity.Expr.Measure

/-!
# Cases

A case is a tree with everything that is needed to evaluate it and to repeat its check.
-/

namespace QueryParity

/-- A tree to check. -/
structure Case where
  /-- Seed that the tree was generated from. -/
  seed : UInt64
  /-- Number of the case. -/
  iteration : Nat
  /-- Type of the tree. -/
  target : ValueType
  /-- Bound on the depth of the tree. -/
  maxDepth : Nat
  /-- Types of the placeholders. -/
  rootTypes : List ValueType
  /-- The tree. -/
  tree : Expr
  /-- What the placeholders stand for. -/
  substitution : Substitution
  /-- How the tree is queried. -/
  shape : QueryShape

namespace Case

/-- A case without an origin that binds every placeholder to the column of the same number. -/
def ofTree (tree : Expr) (target : ValueType) (rootTypes : List ValueType) (shape : QueryShape) :
    Except ConfigError Case := do
  let substitution ← Substitution.columns rootTypes
  .ok ⟨0, 0, target, tree.depth, rootTypes, tree, substitution, shape⟩

/-- The case with a record of where it comes from. -/
def withOrigin (c : Case) (seed : UInt64) (iteration maxDepth : Nat) : Case :=
  { c with seed, iteration, maxDepth }

/-- The report of a failed check, which is made if the tree and the lowered tree are printable. -/
def report (c : Case) (lowered : Expr) (kind : FailureKind) : FailureReport :=
  ⟨c.seed, c.iteration, c.target, c.maxDepth, c.rootTypes, c.shape, c.tree, lowered, kind⟩

end Case

end QueryParity
