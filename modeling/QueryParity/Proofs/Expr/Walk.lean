import QueryParity.Proofs.Expr.Nodes

/-!
# Walks from left to right

A visitor that always visits the children next meets the nodes of a tree in preorder. So the
placeholders that a walk collects are those among the nodes, in their order and with repetitions;
they are the placeholders of the operands and arguments, one after the other. A visitor that counts
finds the number of nodes, and one that counts the levels on its way down finds the length of the
longest path.
-/

namespace QueryParity.Expr

/-- The nodes of several trees are their nodes in a row. -/
theorem preorderAll_eq_flatMap (es : List Expr) : preorderAll es = es.flatMap preorder := by
  induction es with
  | nil => rfl
  | cons e es ih => rw [preorderAll, ih, List.flatMap_cons]

/-- The nodes of a tree are the tree and then the nodes of its children. -/
theorem preorder_eq (e : Expr) : e.preorder = e :: e.children.flatMap preorder := by
  cases e with
  | binary op l r => simp [preorder, children]
  | unary op a => simp [preorder, children]
  | call f args => rw [preorder, preorderAll_eq_flatMap, children]
  | _ => rfl

variable {σ ι : Type}

/-- Orders that place children, given with their positions, from the last to the first. -/
def placeAll (placement : Placement) (input : Expr × Nat → ι) (children : List (Expr × Nat)) :
    List (Order ι) :=
  children.reverse.map fun child => .place child.2 placement (input child)

/-- The visit for which a child is placed. -/
def Visit.child (visit : Visit ι) (input : Expr × Nat → ι) (child : Expr × Nat) : Visit ι :=
  ⟨child.1, some visit.node, input child⟩

/-- The children are put into the queue one by one. -/
theorem queueAfter_placeAll (visit : Visit ι) (placement : Placement) (input : Expr × Nat → ι)
    (pending : List (Visit ι)) :
    visit.queueAfter (placeAll placement input visit.node.children.zipIdx) pending =
      (visit.node.children.zipIdx.map (visit.child input)).foldr placement.put pending := by
  have hall : ∀ children : List (Expr × Nat),
      (∀ child ∈ children, visit.node.children[child.2]? = some child.1) →
      children.foldr (fun child queue => visit.obey queue (.place child.2 placement (input child)))
          pending =
        children.foldr (fun child queue => placement.put (visit.child input child) queue)
          pending := by
    intro children hchildren
    induction children with
    | nil => rfl
    | cons child rest ih =>
      rw [List.forall_mem_cons] at hchildren
      rw [List.foldr_cons, List.foldr_cons, ih hchildren.2, Visit.obey, hchildren.1, Visit.child]
  rw [Visit.queueAfter, placeAll, List.foldl_map, List.foldl_reverse, List.foldr_map]
  exact hall _ fun child h => List.mem_zipIdx_iff_getElem?.mp h

/-- Visits that are put before the others, the last of them first, are made in their order. -/
theorem foldr_put_front (visits pending : List (Visit ι)) :
    visits.foldr Placement.front.put pending = visits ++ pending := by
  induction visits with
  | nil => rfl
  | cons visit visits ih => rw [List.foldr_cons, ih, Placement.put, List.cons_append]

/-- A plan to descend places every child. -/
theorem orders_descend (input : ι) (node : Expr) :
    (Plan.descend input).orders node = placeAll .front (fun _ => input) node.children.zipIdx :=
  congrFun List.filterMap_eq_map _

/-- Children that all go to the front are pending next, in their order. -/
theorem queueAfter_descend (visit : Visit ι) (input : ι) (pending : List (Visit ι)) :
    visit.queueAfter ((Plan.descend input).orders visit.node) pending =
      visit.node.children.map (fun child => ⟨child, some visit.node, input⟩) ++ pending := by
  rw [orders_descend, queueAfter_placeAll, foldr_put_front]
  congr 1
  conv => rhs; rw [← List.zipIdx_map_fst 0 visit.node.children, List.map_map]
  rfl

/-- A visitor that always descends folds over the nodes of the pending trees in preorder. -/
theorem walkFrom_descend (f : σ → Expr → σ) (input : ι) (state : σ) (pending : List (Visit ι)) :
    walkFrom (Planner.visitor fun state visit => (f state visit.node, .descend input)) state
        pending =
      (pending.flatMap fun visit => visit.node.preorder).foldl f state := by
  fun_induction walkFrom (Planner.visitor fun state visit => (f state visit.node, .descend input))
    state pending with
  | case1 state => rfl
  | case2 state visit rest state' orders horders ih =>
    obtain ⟨rfl, rfl⟩ := Prod.mk.inj horders
    have hqueue : (visit.queueAfter ((Plan.descend input).orders visit.node) rest).flatMap
          (fun v => v.node.preorder) =
        visit.node.children.flatMap preorder ++ rest.flatMap fun v => v.node.preorder := by
      rw [queueAfter_descend, List.flatMap_append, List.flatMap_map]
    rw [ih, hqueue, List.flatMap_cons, preorder_eq visit.node, List.cons_append, List.foldl_cons]

/-- The placeholders of a tree are those among its nodes, in preorder. -/
theorem roots_eq (e : Expr) : e.roots = e.preorder.filterMap root? := by
  have hfold : ∀ (nodes : List Expr) (found : List (Nat × ValueType)),
      nodes.foldl (fun found node => node.root?.toList ++ found) found =
        (nodes.filterMap root?).reverse ++ found := by
    intro nodes
    induction nodes with
    | nil => intro found; rfl
    | cons node nodes ih =>
      intro found
      rw [List.foldl_cons, ih, List.filterMap_cons]
      cases node.root? <;> simp
  have hwalk := walkFrom_descend (fun found node => node.root?.toList ++ found) () []
    [⟨e, none, ()⟩]
  rw [roots, walk, explore, hwalk, List.flatMap_singleton, hfold, List.append_nil,
    List.reverse_reverse]

/-- A placeholder is among those of a tree exactly if it is one of its nodes. -/
theorem mem_roots_iff {e : Expr} {index : Nat} {type : ValueType} :
    (index, type) ∈ e.roots ↔ .root index type ∈ e.preorder := by
  rw [roots_eq, List.mem_filterMap]
  constructor
  · rintro ⟨node, hnode, hroot⟩
    cases node with
    | root i t =>
      cases hroot
      exact hnode
    | _ => cases hroot
  · intro h
    exact ⟨_, h, rfl⟩

@[simp] theorem roots_const (v : Value) : (const v).roots = [] := roots_eq _

@[simp] theorem roots_root (i : Nat) (t : ValueType) : (root i t).roots = [(i, t)] := roots_eq _

@[simp] theorem roots_field (c : Nat) (t : ValueType) : (field c t).roots = [] := roots_eq _

@[simp] theorem roots_binary (op : BinaryOp) (l r : Expr) :
    (binary op l r).roots = l.roots ++ r.roots := by
  rw [roots_eq, roots_eq, roots_eq, ← List.filterMap_append]
  rfl

@[simp] theorem roots_unary (op : UnaryOp) (a : Expr) : (unary op a).roots = a.roots := by
  rw [roots_eq, roots_eq]
  rfl

@[simp] theorem roots_call (f : Func) (args : List Expr) :
    (call f args).roots = args.flatMap roots := by
  have hargs : args.flatMap roots = (args.flatMap preorder).filterMap root? := by
    induction args with
    | nil => rfl
    | cons a args ih =>
      rw [List.flatMap_cons, List.flatMap_cons, List.filterMap_append, ih, roots_eq]
  rw [hargs, roots_eq, preorder, preorderAll_eq_flatMap]
  rfl

/-- A tree has as many nodes as are listed in preorder. -/
theorem length_preorder (e : Expr) : e.preorder.length = e.size := by
  have hall : ∀ es : List Expr, (∀ e ∈ es, e.preorder.length = e.size) →
      (es.flatMap preorder).length = sizeAll es := by
    intro es hes
    induction es with
    | nil => rfl
    | cons e es ih =>
      rw [List.forall_mem_cons] at hes
      rw [List.flatMap_cons, List.length_append, hes.1, ih hes.2, sizeAll]
  induction e with
  | const v | root i t | field c t => rfl
  | binary op l r ihl ihr =>
    rw [preorder, List.length_cons, List.length_append, ihl, ihr, size, Nat.add_comm]
  | unary op a ih => rw [preorder, List.length_cons, ih, size, Nat.add_comm]
  | call f args ih =>
    rw [preorder, preorderAll_eq_flatMap, List.length_cons, hall args ih, size, Nat.add_comm]

/-- A walk counts every node of a tree. -/
theorem nodeCount_eq_size (e : Expr) : e.nodeCount = e.size := by
  have hcount : ∀ (nodes : List Expr) (count : Nat),
      nodes.foldl (fun count _ => count + 1) count = count + nodes.length := by
    intro nodes
    induction nodes with
    | nil => intro count; rfl
    | cons node nodes ih =>
      intro count
      rw [List.foldl_cons, ih, List.length_cons, Nat.add_assoc, Nat.add_comm 1]
  have hwalk := walkFrom_descend (fun count (_ : Expr) => count + 1) () 0 [⟨e, none, ()⟩]
  rw [nodeCount, walk, explore, hwalk, List.flatMap_singleton, hcount, Nat.zero_add,
    length_preorder]

/-- A tree is one level higher than the highest of its children. -/
theorem height_eq (e : Expr) : e.height = heightBelow e.children := by
  cases e <;> simp [height, heightBelow, children]

/-- The deepest level below a node, found child by child. -/
theorem foldl_max_children (level : Nat) {deepest : Nat} (es : List Expr) (h : level ≤ deepest) :
    es.foldl (fun deepest e => max deepest (level + 1 + e.height)) deepest =
      max deepest (level + heightBelow es) := by
  induction es generalizing deepest with
  | nil =>
    rw [List.foldl_nil, heightBelow]
    omega
  | cons e es ih =>
    have hlevel : level ≤ max deepest (level + 1 + e.height) := by omega
    rw [List.foldl_cons, ih hlevel, heightBelow]
    omega

/-- A visitor that counts the levels finds the deepest one below the pending visits. -/
theorem walkFrom_deepest (deepest : Nat) (pending : List (Visit Nat)) :
    walkFrom (Planner.visitor fun deepest visit =>
        (max deepest visit.input, .descend (visit.input + 1))) deepest pending =
      pending.foldl (fun deepest visit => max deepest (visit.input + visit.node.height))
        deepest := by
  fun_induction walkFrom
    (Planner.visitor fun deepest (visit : Visit Nat) =>
      (max deepest visit.input, Plan.descend (visit.input + 1))) deepest pending with
  | case1 deepest => rfl
  | case2 deepest visit rest deepest' orders horders ih =>
    obtain ⟨rfl, rfl⟩ := Prod.mk.inj horders
    have hbelow := foldl_max_children visit.input visit.node.children
      (Nat.le_max_right deepest visit.input)
    rw [← height_eq] at hbelow
    rw [ih, queueAfter_descend, List.foldl_append, List.foldl_map, List.foldl_cons, hbelow]
    congr 1
    omega

/-- The depth of a tree is the length of its longest path. -/
theorem depth_eq_height (e : Expr) : e.depth = e.height := by
  rw [depth, walk, explore, walkFrom_deepest, List.foldl_cons, List.foldl_nil, Nat.zero_max,
    Nat.zero_add]

end QueryParity.Expr
