import QueryParity.Expr.Walk

/-!
# Measures of trees

Depth, node count, placeholders and search, each computed by one walk from left to right. Beside
them stand the recursive notions that they compute: `height`, `size` and `preorder`.
-/

namespace QueryParity.Expr

mutual

/-- Length in edges of the longest path down from the top. -/
def height : Expr → Nat
  | .binary _ l r => 1 + max l.height r.height
  | .unary _ a => 1 + a.height
  | .call _ args => heightBelow args
  | _ => 0

/-- Height of a node over the given children. -/
def heightBelow : List Expr → Nat
  | [] => 0
  | e :: es => max (1 + e.height) (heightBelow es)

end

mutual

/-- The nodes of a tree, each before its children and those from left to right. -/
def preorder : Expr → List Expr
  | .binary op l r => .binary op l r :: (l.preorder ++ r.preorder)
  | .unary op a => .unary op a :: a.preorder
  | .call f args => .call f args :: preorderAll args
  | leaf => [leaf]

/-- The nodes of several trees, tree by tree. -/
def preorderAll : List Expr → List Expr
  | [] => []
  | e :: es => e.preorder ++ preorderAll es

end

/-- Number and type of a placeholder. -/
def root? : Expr → Option (Nat × ValueType)
  | .root index type => some (index, type)
  | _ => none

/-- Length in edges of the longest path, found by carrying the depth along. -/
def depth (e : Expr) : Nat :=
  walk e 0 0 fun deepest visit => (max deepest visit.input, .descend (visit.input + 1))

/-- Number of visits of a full walk. -/
def nodeCount (e : Expr) : Nat := walk e () 0 fun count _ => (count + 1, .descend ())

/-- The placeholders of a tree from left to right, with repetitions. -/
def roots (e : Expr) : List (Nat × ValueType) :=
  (walk e () [] fun found visit => (visit.node.root?.toList ++ found, .descend ())).reverse

/-- Whether some node passes a test. The test has a state, may be asked of every node, and is not
asked again once a node has passed. -/
def anyNode {σ : Type} (e : Expr) (state : σ) (test : σ → Expr → σ × Bool) : σ × Bool :=
  walk e () (state, false) fun (state, found) visit =>
    let (state, passed) := test state visit.node
    if passed then ((state, true), { Plan.leave with stop := true })
    else ((state, found), .descend ())

end QueryParity.Expr
