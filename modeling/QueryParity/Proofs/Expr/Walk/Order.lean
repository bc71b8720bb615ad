import QueryParity.Proofs.Expr.Levels
import QueryParity.Proofs.Expr.Walk.Visits

/-!
# The order of visits

If all children go to the front of the queue, the queue holds the trees that are still to be walked
in preorder, one after the other. If all children go to the back, the queue holds what is left of a
level and then the children of what was visited of it. Children are placed from the last to the
first, so that every level is visited from right to left.
-/

namespace QueryParity.Expr

variable {σ ι : Type}

/-- Nothing is dropped, and every child is placed at this end of the queue, with any input. -/
def Planner.PlacesAll (planner : Planner σ ι) (placement : Placement) : Prop :=
  ∀ state visit, (planner state visit).2.stop = false ∧
    ∀ i child, ∃ input, (planner state visit).2.place i child = some (placement, input)

/-- A pending visit's node, with the way to it. -/
def Visit.occurrence (visit : Visit (List Nat × ι)) : List Nat × Expr := (visit.path, visit.node)

/-- A visited node, with the way to it. -/
def Visited.occurrence (entry : Visited ι) : List Nat × Expr := (entry.path, entry.visit.node)

/-- Visits that are put after the others, the last of them first, are made in the opposite order. -/
theorem foldr_put_back (visits pending : List (Visit ι)) :
    visits.foldr Placement.back.put pending = pending ++ visits.reverse := by
  induction visits with
  | nil => exact (List.append_nil _).symm
  | cons visit visits ih =>
    rw [List.foldr_cons, ih, Placement.put, List.append_assoc, List.reverse_cons]

/-- A planner that places every child puts the visits for the children into the queue. -/
theorem Planner.PlacesAll.exists_pendingAfter {planner : Planner σ ι} {placement : Placement}
    (h : planner.PlacesAll placement) (state : σ) (visit : Visit (List Nat × ι))
    (rest : List (Visit (List Nat × ι))) :
    ∃ children : List (Visit (List Nat × ι)),
      children.map Visit.occurrence = childrenOf visit.occurrence ∧
        visit.pendingAfter (planner.visitor state visit.plain).2 rest =
          children.foldr placement.put rest := by
  obtain ⟨hstop, hplace⟩ := h state visit.plain
  choose input hinput using hplace
  have horders : (planner.visitor state visit.plain).2 =
      placeAll placement (fun child => input child.2 child.1) visit.node.children.zipIdx := by
    change (planner state visit.plain).2.orders visit.node = _
    rw [Plan.orders, hstop]
    simp only [hinput]
    exact congrFun List.filterMap_eq_map _
  have hunder : (placeAll placement (fun child => input child.2 child.1)
        visit.node.children.zipIdx).map (.under visit.path) =
      placeAll placement (fun child => (visit.path ++ [child.2], input child.2 child.1))
        visit.node.children.zipIdx := List.map_map
  refine ⟨_, ?_, by rw [Visit.pendingAfter, horders, hunder, queueAfter_placeAll]⟩
  rw [List.map_map]
  rfl

/-- The nodes of a tree in preorder, with the ways to them from further above. -/
def preorderFrom (node : List Nat × Expr) : List (List Nat × Expr) :=
  node.2.occurrences.map fun inner => (node.1 ++ inner.1, inner.2)

/-- The node comes first, and then come the nodes of its children. -/
theorem preorderFrom_eq (node : List Nat × Expr) :
    preorderFrom node = node :: (childrenOf node).flatMap preorderFrom := by
  rw [preorderFrom, occurrences_eq, List.map_cons, List.append_nil, childrenOf, List.flatMap_map,
    List.map_flatMap]
  congr 2
  funext child
  rw [fromParent, preorderFrom, List.map_map]
  congr 1
  funext inner
  rw [Function.comp, List.append_assoc, List.singleton_append]

/-- With all children at the front, the pending trees are walked in preorder, one by one. -/
theorem Run.occurrences_front {planner : Planner σ ι} (h : planner.PlacesAll .front)
    {state last : σ} {pending : List (Visit (List Nat × ι))} {log : List (Visited ι)}
    (hrun : Run planner.visitor state pending log last) :
    log.map Visited.occurrence = (pending.map Visit.occurrence).flatMap preorderFrom := by
  induction hrun with
  | nil => rfl
  | @cons state _ visit rest _ _ ih =>
    obtain ⟨children, hchildren, hafter⟩ := h.exists_pendingAfter state visit rest
    rw [hafter, foldr_put_front, List.map_append, List.flatMap_append, hchildren] at ih
    rw [List.map_cons, List.map_cons, List.flatMap_cons, preorderFrom_eq, ih]
    rfl

/-- With all children at the back, what is pending is visited first, and its children come after
what else is pending. -/
theorem Run.pass {planner : Planner σ ι} (h : planner.PlacesAll .back) {last : σ}
    (now : List (Visit (List Nat × ι))) {state : σ} {next : List (Visit (List Nat × ι))}
    {log : List (Visited ι)} (hrun : Run planner.visitor state (now ++ next) log last) :
    ∃ state' children first rest, Run planner.visitor state' (next ++ children) rest last ∧
      log = first ++ rest ∧ first.map Visited.occurrence = now.map Visit.occurrence ∧
        children.map Visit.occurrence =
          (now.map Visit.occurrence).flatMap fun node => (childrenOf node).reverse := by
  induction now generalizing state next log with
  | nil => exact ⟨state, [], [], log, by rwa [List.append_nil], rfl, rfl, rfl⟩
  | cons visit now ih =>
    rw [List.cons_append] at hrun
    cases hrun with
    | cons hrun =>
      obtain ⟨below, hbelow, hafter⟩ := h.exists_pendingAfter state visit (now ++ next)
      rw [hafter, foldr_put_back, List.append_assoc] at hrun
      obtain ⟨state', children, first, rest, hrest, rfl, hfirst, hchildren⟩ := ih hrun
      rw [List.append_assoc] at hrest
      refine ⟨state', below.reverse ++ children, _ :: first, rest, hrest, rfl, ?_, ?_⟩
      · rw [List.map_cons, List.map_cons, hfirst]
        rfl
      · rw [List.map_append, List.map_reverse, hbelow, hchildren, List.map_cons, List.flatMap_cons]

/-- With all children at the back, a pending level is visited, and then the levels below it. -/
theorem Run.occurrences_back {planner : Planner σ ι} (h : planner.PlacesAll .back) (e : Expr)
    {last : σ} (levels : Nat) {steps : Nat} {state : σ} {pending : List (Visit (List Nat × ι))}
    {log : List (Visited ι)} (hrun : Run planner.visitor state pending log last)
    (hlevel : pending.map Visit.occurrence = (e.level steps).reverse)
    (hempty : e.level (steps + levels) = []) :
    log.map Visited.occurrence =
      (List.range' steps levels).flatMap fun steps => (e.level steps).reverse := by
  induction levels generalizing steps state pending log with
  | zero =>
    rw [Nat.add_zero] at hempty
    rw [hempty, List.reverse_nil, List.map_eq_nil_iff] at hlevel
    subst hlevel
    cases hrun
    rfl
  | succ levels ih =>
    rw [← List.append_nil pending] at hrun
    obtain ⟨state', children, first, rest, hrest, rfl, hfirst, hchildren⟩ := hrun.pass h pending
    have hnext : children.map Visit.occurrence = (e.level (steps + 1)).reverse := by
      rw [hchildren, hlevel, ← flatMap_childrenOf_level, List.reverse_flatMap]
      rfl
    rw [← Nat.add_assoc, Nat.add_right_comm] at hempty
    rw [List.nil_append] at hrest
    rw [List.map_append, hfirst, hlevel, List.range'_succ, List.flatMap_cons, ih hrest hnext hempty]

/-- Below the last level there are no nodes. -/
theorem level_eq_nil {e : Expr} {steps : Nat} (h : e.height < steps) : e.level steps = [] := by
  refine List.filter_eq_nil_iff.mpr fun ⟨path, n⟩ hmem hsteps => ?_
  have hlength := length_le_height (mem_occurrences_iff.mp hmem)
  have heq : path.length = steps := of_decide_eq_true hsteps
  omega

/-- A walk that places all children at the front meets the nodes in preorder. -/
theorem occurrences_visits_front {planner : Planner σ ι} (h : planner.PlacesAll .front) (e : Expr)
    (input : ι) (state : σ) :
    (e.visits input state planner.visitor).map Visited.occurrence = e.occurrences := by
  rw [(run_visits planner.visitor e input state).occurrences_front h, List.map_singleton,
    List.flatMap_singleton, preorderFrom]
  exact List.map_id _

/-- A walk that places all children at the back meets the nodes in level order. -/
theorem occurrences_visits_back {planner : Planner σ ι} (h : planner.PlacesAll .back) (e : Expr)
    (input : ι) (state : σ) :
    (e.visits input state planner.visitor).map Visited.occurrence = e.levelOrder := by
  have hlevel : [Visit.occurrence ⟨e, none, [], input⟩] = (e.level 0).reverse := by
    rw [level_zero]
    rfl
  have hempty : e.level (0 + (e.height + 1)) = [] := level_eq_nil (by omega)
  rw [(run_visits planner.visitor e input state).occurrences_back h e _ hlevel hempty, levelOrder,
    List.range_eq_range']

end QueryParity.Expr
