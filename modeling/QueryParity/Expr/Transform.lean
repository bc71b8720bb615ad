import QueryParity.Expr.Basic

/-!
# Bottom-up replacement

A step is offered every node of a tree once, children before their parents and from left to right,
each node with its children already replaced. It may answer with a replacement, and it may have
effects: fail, count, report. The result is `none` when no replacement was made in a tree, so an
untouched tree is known to be untouched.
-/

namespace QueryParity.Expr

variable {m : Type → Type} [Monad m]

/-- Offer a node, rebuilt or not, to a step. -/
def offer (step : Expr → m (Option Expr)) (node : Expr) (rebuilt : Option Expr) :
    m (Option Expr) := do
  match ← step (rebuilt.getD node) with
  | some replacement => pure (some replacement)
  | none => pure rebuilt

mutual

/-- The tree with every replacement made, or `none` if the step declined every node. -/
def transform? (step : Expr → m (Option Expr)) : Expr → m (Option Expr)
  | .binary op l r => do
    let l' ← transform? step l
    let r' ← transform? step r
    let rebuilt :=
      if l'.isNone && r'.isNone then none else some (.binary op (l'.getD l) (r'.getD r))
    offer step (.binary op l r) rebuilt
  | .unary op a => do
    let a' ← transform? step a
    offer step (.unary op a) (a'.map (.unary op ·))
  | .call f args => do
    let args' ← transformAll? step args
    offer step (.call f args) (args'.map (.call f ·))
  | .const v => offer step (.const v) none
  | .root i t => offer step (.root i t) none
  | .field c t => offer step (.field c t) none

/-- The trees with every replacement made, or `none` if the step declined every node. -/
def transformAll? (step : Expr → m (Option Expr)) : List Expr → m (Option (List Expr))
  | [] => pure none
  | e :: es => do
    let e' ← transform? step e
    let es' ← transformAll? step es
    pure (if e'.isNone && es'.isNone then none else some (e'.getD e :: es'.getD es))

end

/-- The tree with every replacement made. -/
def transform (step : Expr → m (Option Expr)) (e : Expr) : m Expr := do
  let e' ← transform? step e
  pure (e'.getD e)

end QueryParity.Expr
