import QueryParity.Expr.Basic
import QueryParity.Worklist

/-!
# Walks over trees

A walk keeps a queue of pending visits. At each visit the visitor gives orders: to place a child of
the visited node, with an input for its visit, before everything pending or after it; or to drop
everything pending. The usual visitor plans for all children at once. They are then placed from
right to left, so children that all go to the front are visited from left to right.
-/

namespace QueryParity.Expr

/-- Where a child is placed in the queue. -/
inductive Placement where
  /-- Before everything pending. -/
  | front
  /-- After everything pending. -/
  | back
  deriving DecidableEq, Repr

/-- A pending visit. -/
structure Visit (ι : Type) where
  /-- The node to be visited. -/
  node : Expr
  /-- The node it was placed from; `none` at the start of the walk. -/
  parent : Option Expr
  /-- The input it was placed with. -/
  input : ι

/-- What a visitor has done to the queue. -/
inductive Order (ι : Type) where
  /-- Drop everything pending. -/
  | clear
  /-- Place the child at a position, to be visited with an input. -/
  | place (position : Nat) (placement : Placement) (input : ι)

/-- Reacts to visits with a state of its own and with orders, to be carried out one by one. -/
abbrev Visitor (σ ι : Type) : Type := σ → Visit ι → σ × List (Order ι)

variable {σ ι : Type}

/-- The queue with one more visit. -/
def Placement.put (placement : Placement) (visit : Visit ι) (pending : List (Visit ι)) :
    List (Visit ι) :=
  match placement with
  | .front => visit :: pending
  | .back => pending ++ [visit]

/-- The queue after an order given at a visit. There is no child to place beyond the last one. -/
def Visit.obey (visit : Visit ι) (pending : List (Visit ι)) : Order ι → List (Visit ι)
  | .clear => []
  | .place position placement input =>
    match visit.node.children[position]? with
    | some child => placement.put ⟨child, some visit.node, input⟩ pending
    | none => pending

/-- The queue after all orders given at a visit. -/
def Visit.queueAfter (visit : Visit ι) (orders : List (Order ι)) (pending : List (Visit ι)) :
    List (Visit ι) :=
  orders.foldl visit.obey pending

/-- Sizes of the trees that are still to be walked. -/
def pendingSizes (pending : List (Visit ι)) : List Nat := pending.map fun visit => visit.node.size

/-- A child is smaller than its node. -/
theorem size_lt_of_mem_children {e child : Expr} (h : child ∈ e.children) :
    child.size < e.size := by
  obtain ⟨before, after, hchildren⟩ := List.append_of_mem h
  rw [size_eq e, hchildren, sizeAll_append, sizeAll]
  omega

/-- The queue has one more tree. -/
theorem pendingSizes_put (placement : Placement) (visit : Visit ι) (pending : List (Visit ι)) :
    (pendingSizes (placement.put visit pending)).Perm
      (visit.node.size :: pendingSizes pending) := by
  cases placement with
  | front => exact .refl _
  | back =>
    rw [Placement.put, pendingSizes, List.map_append]
    exact List.perm_append_comm

/-- Orders drop trees or add some that are smaller than the visited one. -/
theorem trades_queueAfter (visit : Visit ι) (orders : List (Order ι)) {before : List Nat}
    {queue : List (Visit ι)} (h : Worklist.Trades visit.node.size before (pendingSizes queue)) :
    Worklist.Trades visit.node.size before (pendingSizes (visit.queueAfter orders queue)) := by
  induction orders generalizing queue with
  | nil => exact h
  | cons order orders ih =>
    refine ih ?_
    cases order with
    | clear => exact .nil before
    | place position placement input =>
      rw [Visit.obey]
      split
      · next child hchild =>
        have hsmall := size_lt_of_mem_children (List.mem_of_getElem? hchild)
        exact h.add hsmall (pendingSizes_put placement _ queue)
      · exact h

/-- Whatever a visitor orders, it exchanges the visited tree for smaller ones. -/
theorem step_queueAfter (visit : Visit ι) (orders : List (Order ι)) (pending : List (Visit ι)) :
    Worklist.Step (pendingSizes (visit :: pending))
      (pendingSizes (visit.queueAfter orders pending)) :=
  ⟨visit.node.size, pendingSizes pending, .refl _, trades_queueAfter visit orders (.refl _)⟩

/-- Make the pending visits, and those that the visitor orders, until none is left. -/
def walkFrom (visitor : Visitor σ ι) (state : σ) (pending : List (Visit ι)) : σ :=
  match pending with
  | [] => state
  | visit :: rest =>
    let (state, orders) := visitor state visit
    walkFrom visitor state (visit.queueAfter orders rest)
termination_by Worklist.wellFounded.wrap (pendingSizes pending)
decreasing_by exact step_queueAfter _ _ _

/-- A walk goes on with the queue after the first visit. -/
theorem walkFrom_cons (visitor : Visitor σ ι) (state : σ) (visit : Visit ι)
    (rest : List (Visit ι)) :
    walkFrom visitor state (visit :: rest) =
      walkFrom visitor (visitor state visit).1
        (visit.queueAfter (visitor state visit).2 rest) := by
  rw [walkFrom]

/-- Walk a tree from its topmost node, as the visitor orders. -/
def explore (e : Expr) (input : ι) (state : σ) (visitor : Visitor σ ι) : σ :=
  walkFrom visitor state [⟨e, none, input⟩]

/-- What is to be done at a visit with what is pending and with the children. -/
structure Plan (ι : Type) where
  /-- Whether everything pending is dropped. -/
  stop : Bool
  /-- Placement and input of each child, by position and node; `none` to leave a child out. -/
  place : Nat → Expr → Option (Placement × ι)

/-- Visit no child. -/
def Plan.leave : Plan ι := ⟨false, fun _ _ => none⟩

/-- Visit every child next, from left to right, with the same input. -/
def Plan.descend (input : ι) : Plan ι := ⟨false, fun _ _ => some (.front, input)⟩

/-- The orders that carry out a plan at a node: the last child is placed first. -/
def Plan.orders (plan : Plan ι) (node : Expr) : List (Order ι) :=
  (if plan.stop then [.clear] else []) ++ node.children.zipIdx.reverse.filterMap fun (child, i) =>
    (plan.place i child).map fun (placement, input) => .place i placement input

/-- Reacts to visits with a state of its own and with a plan. -/
abbrev Planner (σ ι : Type) : Type := σ → Visit ι → σ × Plan ι

/-- The visitor that orders what is planned. -/
def Planner.visitor (planner : Planner σ ι) : Visitor σ ι := fun state visit =>
  let (state, plan) := planner state visit
  (state, plan.orders visit.node)

/-- Walk a tree from its topmost node, as is planned at each visit. -/
def walk (e : Expr) (input : ι) (state : σ) (planner : Planner σ ι) : σ :=
  e.explore input state planner.visitor

end QueryParity.Expr
