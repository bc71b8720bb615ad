import QueryParity.Proofs.Expr.Walk.Order

/-!
# What the walks over a tree find

A search asks its test about the nodes of a tree in preorder and drops what is pending as soon as a
node passes. Together with depth, node count and placeholders it is one of the analyses that walk a
tree once; each of them finds what a plain recursion over the tree does.
-/

namespace QueryParity.Expr

variable {σ : Type}

/-- Ask a test about nodes, one after the other, until one passes. -/
def askUntil (test : σ → Expr → σ × Bool) (state : σ) : List Expr → σ × Bool
  | [] => (state, false)
  | node :: nodes =>
    if (test state node).2 then ((test state node).1, true)
    else askUntil test (test state node).1 nodes

/-- The planner of a search. -/
def searcher (test : σ → Expr → σ × Bool) : Planner (σ × Bool) Unit := fun (state, found) visit =>
  if (test state visit.node).2 then
    (((test state visit.node).1, true), { Plan.leave with stop := true })
  else (((test state visit.node).1, found), .descend ())

/-- After a node has passed, nothing is pending. -/
theorem searcher_of_passes {test : σ → Expr → σ × Bool} {state : σ} {visit : Visit Unit}
    (h : (test state visit.node).2 = true) :
    (searcher test).visitor (state, false) visit =
      (((test state visit.node).1, true), [.clear]) := by
  have hleave : visit.node.children.zipIdx.reverse.filterMap
      (fun (_ : Expr × Nat) => (none : Option (Order Unit))) = [] :=
    List.filterMap_eq_nil_iff.mpr fun _ _ => rfl
  rw [Planner.visitor, searcher, if_pos h]
  exact congrArg (((test state visit.node).1, true), [Order.clear] ++ ·) hleave

/-- Otherwise the search goes on below the node. -/
theorem searcher_of_fails {test : σ → Expr → σ × Bool} {state : σ} {visit : Visit Unit}
    (h : ¬ (test state visit.node).2 = true) :
    (searcher test).visitor (state, false) visit =
      (((test state visit.node).1, false), (Plan.descend ()).orders visit.node) := by
  rw [Planner.visitor, searcher, if_neg h]

/-- A search asks about the nodes of the pending trees in preorder. -/
theorem walkFrom_searcher (test : σ → Expr → σ × Bool) (state : σ) (pending : List (Visit Unit)) :
    walkFrom (searcher test).visitor (state, false) pending =
      askUntil test state (pending.flatMap fun visit => visit.node.preorder) := by
  generalize hs : (state, false) = s
  fun_induction walkFrom (searcher test).visitor s pending generalizing state with
  | case1 s =>
    subst hs
    rfl
  | case2 s visit rest s' orders horders ih =>
    subst hs
    rw [List.flatMap_cons, preorder_eq, List.cons_append, askUntil]
    by_cases hpasses : (test state visit.node).2 = true
    · rw [searcher_of_passes hpasses] at horders
      obtain ⟨rfl, rfl⟩ := Prod.mk.inj horders
      rw [if_pos hpasses, Visit.queueAfter, List.foldl_cons, List.foldl_nil, Visit.obey, walkFrom]
    · rw [searcher_of_fails hpasses] at horders
      obtain ⟨rfl, rfl⟩ := Prod.mk.inj horders
      rw [ih _ rfl, queueAfter_descend, List.flatMap_append, List.flatMap_map, if_neg hpasses]

/-- A search in a tree asks about its nodes in preorder. -/
theorem anyNode_eq (e : Expr) (state : σ) (test : σ → Expr → σ × Bool) :
    e.anyNode state test = askUntil test state e.preorder := by
  have hwalk : e.anyNode state test = e.walk () (state, false) (searcher test) := rfl
  rw [hwalk, walk, explore, walkFrom_searcher, List.flatMap_singleton]

/-- A test that depends on the node alone is asked up to the first node that passes. -/
theorem askUntil_eq_takeWhile (passes : Expr → Bool) (asked nodes : List Expr) :
    askUntil (fun asked node => (asked ++ [node], passes node)) asked nodes =
      (asked ++ (nodes.takeWhile (!passes ·) ++ (nodes.find? passes).toList),
        nodes.any passes) := by
  induction nodes generalizing asked with
  | nil => rw [askUntil]; simp
  | cons node nodes ih =>
    rw [askUntil]
    cases hpasses : passes node with
    | true => simp [hpasses]
    | false => simp [hpasses, ih]

/-- Children that all go to the front are visited in preorder, and children that all go to the back
in level order, each level from right to left; the inputs do not matter. So depth is the length of
the longest way down, the node count is the number of places in the tree, the placeholders are
found in preorder, and a search asks its test about the nodes in preorder until one passes: about
the nodes before the first one that passes, about that one, and about no other. -/
theorem walks_follow_recursions (e : Expr) :
    (∀ {σ ι : Type} (planner : Planner σ ι) (input : ι) (state : σ),
      Calls planner.visitor state (e.visits input state planner.visitor)
          (e.walk input state planner) ∧
        (planner.PlacesAll .front →
          (e.visits input state planner.visitor).map Visited.occurrence = e.occurrences) ∧
        (planner.PlacesAll .back →
          (e.visits input state planner.visitor).map Visited.occurrence = e.levelOrder)) ∧
      (e.depth = e.height ∧ (∀ path n, e.at? path = some n → path.length ≤ e.depth) ∧
        ∃ path n, e.at? path = some n ∧ path.length = e.depth) ∧
      (e.nodeCount = e.size ∧ e.nodeCount = e.occurrences.length) ∧
      e.roots = e.preorder.filterMap root? ∧
      (∀ {σ : Type} (state : σ) (test : σ → Expr → σ × Bool),
        e.anyNode state test = askUntil test state e.preorder) ∧
      (∀ passes : Expr → Bool,
        e.anyNode [] (fun asked node => (asked ++ [node], passes node)) =
          (e.preorder.takeWhile (!passes ·) ++ (e.preorder.find? passes).toList,
            e.preorder.any passes)) := by
  refine ⟨fun planner input state => ⟨(run_visits _ e input state).calls,
    fun h => occurrences_visits_front h e input state,
    fun h => occurrences_visits_back h e input state⟩, ?_, ?_, roots_eq e,
    fun state test => anyNode_eq e state test, ?_⟩
  · rw [depth_eq_height]
    exact ⟨rfl, fun path n h => length_le_height h, exists_length_eq_height e⟩
  · rw [nodeCount_eq_size, length_occurrences]
    exact ⟨rfl, rfl⟩
  · intro passes
    rw [anyNode_eq, askUntil_eq_takeWhile, List.nil_append]

/-- Counts the visits and visits every child later, with the number of the visit and the position
of the child as its input. -/
def deferring : Planner Nat (Nat × Nat) := fun count _ =>
  (count + 1, ⟨false, fun i _ => some (.back, count, i)⟩)

/-- The operands of the right operand are visited before those of the left one. -/
theorem walk_follows_levels_of_comparison :
    let comparison := binary .lessThan (binary .add (root 0 .int) (const (.int 1)))
      (unary .negate (root 2 .int))
    ((comparison.visits (0, 0) 0 deferring.visitor).map Visited.occurrence).map Prod.fst =
      [[], [1], [0], [1, 0], [0, 1], [0, 0]] := by
  intro comparison
  have hback : deferring.PlacesAll .back := fun count _ => ⟨rfl, fun i _ => ⟨(count, i), rfl⟩⟩
  have horder := ((walks_follow_recursions comparison).1 deferring (0, 0) 0).2.2 hback
  rw [horder]
  rfl

end QueryParity.Expr
