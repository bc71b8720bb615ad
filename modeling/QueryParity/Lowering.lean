import QueryParity.Event
import QueryParity.Expr.Transform
import QueryParity.Lowering.Rule

/-!
# Lowering of trees

A lowering is a list of rules in order of preference. At a node the first rule that applies wins,
and the rules are asked again about its replacement, for a bounded number of steps. A tree is
lowered node by node, children before their parents.
-/

namespace QueryParity

/-- Rules in order of preference. -/
structure Lowering where
  /-- The rules. -/
  rules : List Rule

namespace Lowering

/-- No rule: every tree stays as it is. -/
def identity : Lowering := ⟨[]⟩

/-- The rules for wildcard matches and for the zone `UTC`. -/
def standard : Lowering := ⟨[Rule.likePattern, Rule.utcTimeZone]⟩

/-- Number of steps at one node, for each rule. -/
def stepsPerRule : Nat := 8

/-- Number of steps at one node. -/
def maxSteps (l : Lowering) : Nat := l.rules.length * stepsPerRule

/-- The name of the first rule that applies to a node, and the replacement it offers. -/
def firstMatch? (l : Lowering) (node : Expr) : Option (String × Expr) :=
  l.rules.findSome? fun rule => (rule.replace? node).map fun next => (rule.name, next)

/-- What becomes of a node in at most so many steps, `none` if no rule applies to it. -/
def settle? (l : Lowering) : (steps : Nat) → Expr → Logged Event (Option Expr)
  | 0, _ => pure none
  | steps + 1, node =>
    match l.firstMatch? node with
    | none => pure none
    | some (rule, next) => do
      .emit (.ruleFired rule node next)
      let last ← l.settle? steps next
      pure (some (last.getD next))

/-- What becomes of a node, `none` if no rule applies to it. It is reported when the steps did not
suffice. -/
def lowerNode? (l : Lowering) (node : Expr) : Logged Event (Option Expr) := do
  let last ← l.settle? l.maxSteps node
  match last with
  | some kept => if (l.firstMatch? kept).isSome then .emit (.unsettled node l.maxSteps kept)
  | none => pure ()
  pure last

/-- The lowered tree, `none` if no rule applied anywhere. -/
def lower? (l : Lowering) (tree : Expr) : Logged Event (Option Expr) :=
  tree.transform? l.lowerNode?

/-- The lowered tree. -/
def lower (l : Lowering) (tree : Expr) : Logged Event Expr := tree.transform l.lowerNode?

/-- A lowered tree is the tree itself if no rule applied anywhere. -/
theorem value_lower (l : Lowering) (tree : Expr) :
    (l.lower tree).value = (l.lower? tree).value.getD tree := rfl

/-- No rule is found exactly when each one declines. -/
theorem firstMatch?_eq_none_iff {l : Lowering} {node : Expr} :
    l.firstMatch? node = none ↔ ∀ rule ∈ l.rules, rule.replace? node = none := by
  simp [firstMatch?]

end Lowering

end QueryParity
