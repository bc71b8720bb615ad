import QueryParity.Proofs.Expr.Positions

/-!
# Levels of a tree

A level of a tree holds the nodes that are equally far from the top, from left to right. The
children of the nodes of a level, node by node, are the next level, and the height of a tree is the
number of the last level that holds a node.
-/

namespace QueryParity.Expr

/-- The nodes that are so many steps away from the top, from left to right. -/
def level (e : Expr) (steps : Nat) : List (List Nat × Expr) :=
  e.occurrences.filter fun node => node.1.length = steps

/-- The children of a node in a tree, with the ways to them. -/
def childrenOf (node : List Nat × Expr) : List (List Nat × Expr) :=
  node.2.children.zipIdx.map fun child => (node.1 ++ [child.2], child.1)

/-- Only the tree itself is on its first level. -/
@[simp] theorem level_zero (e : Expr) : e.level 0 = [([], e)] := by
  have hbelow : (e.children.zipIdx.flatMap fun child =>
      fromParent child.2 child.1.occurrences).filter (fun node => node.1.length = 0) = [] := by
    refine List.filter_eq_nil_iff.mpr fun ⟨path, n⟩ hmem => ?_
    obtain ⟨i, child, rest, -, rfl, -⟩ := mem_flatMap_fromParent_iff.mp hmem
    simp
  rw [level, occurrences_eq, List.filter_cons_of_pos (by simp), hbelow]

/-- A level below the first one is made up of the levels of the children. -/
theorem level_succ (e : Expr) (steps : Nat) :
    e.level (steps + 1) =
      e.children.zipIdx.flatMap fun child => fromParent child.2 (child.1.level steps) := by
  rw [level, occurrences_eq, List.filter_cons_of_neg (by simp), List.filter_flatMap]
  congr 1
  funext child
  rw [fromParent, List.filter_map, fromParent, level]
  congr 2
  funext node
  simp

/-- The children of nodes that are seen from one level higher. -/
theorem flatMap_childrenOf_fromParent (position : Nat) (nodes : List (List Nat × Expr)) :
    (fromParent position nodes).flatMap childrenOf =
      fromParent position (nodes.flatMap childrenOf) := by
  rw [fromParent, fromParent, List.flatMap_map, List.map_flatMap]
  congr 1
  funext node
  rw [childrenOf, childrenOf, List.map_map]
  rfl

/-- The next level consists of the children of a level. -/
theorem flatMap_childrenOf_level (e : Expr) (steps : Nat) :
    (e.level steps).flatMap childrenOf = e.level (steps + 1) := by
  induction steps generalizing e with
  | zero =>
    rw [level_succ, level_zero, List.flatMap_singleton, childrenOf]
    simp only [level_zero, fromParent, List.map_cons, List.map_nil, List.nil_append]
    rw [← List.flatMap_pure_eq_map]
    rfl
  | succ steps ih =>
    rw [level_succ, level_succ e, List.flatMap_assoc]
    simp only [flatMap_childrenOf_fromParent, ih]

/-- The nodes of a tree, level by level, each level from right to left. -/
def levelOrder (e : Expr) : List (List Nat × Expr) :=
  (List.range (e.height + 1)).flatMap fun steps => (e.level steps).reverse

/-- A tree is higher than its children. -/
theorem height_lt_of_mem_children {e child : Expr} (h : child ∈ e.children) :
    child.height < e.height := by
  have hbelow : ∀ es : List Expr, child ∈ es → child.height < heightBelow es := by
    intro es hes
    induction es with
    | nil => cases hes
    | cons e es ih =>
      rw [heightBelow]
      obtain rfl | hes := List.mem_cons.mp hes
      · omega
      · have := ih hes
        omega
  rw [height_eq e]
  exact hbelow _ h

/-- A tree that is not a leaf is one level higher than one of its children. -/
theorem exists_height_eq_of_pos {e : Expr} (h : 0 < e.height) :
    ∃ child ∈ e.children, e.height = child.height + 1 := by
  have hbelow : ∀ es : List Expr, 0 < heightBelow es →
      ∃ child ∈ es, heightBelow es = child.height + 1 := by
    intro es hes
    induction es with
    | nil => exact absurd hes (Nat.lt_irrefl 0)
    | cons e es ih =>
      rw [heightBelow] at hes ⊢
      by_cases hlast : heightBelow es ≤ e.height + 1
      · exact ⟨e, List.mem_cons_self, by omega⟩
      · obtain ⟨child, hchild, heq⟩ := ih (by omega)
        exact ⟨child, List.mem_cons_of_mem _ hchild, by omega⟩
  rw [height_eq e] at h ⊢
  exact hbelow _ h

/-- No way down a tree is longer than the tree is high. -/
theorem length_le_height {e n : Expr} {path : List Nat} (h : e.at? path = some n) :
    path.length ≤ e.height := by
  induction path generalizing e with
  | nil => exact Nat.zero_le _
  | cons i path ih =>
    obtain ⟨child, hchild, hn⟩ := Option.bind_eq_some_iff.mp h
    have hlength := ih hn
    have hheight := height_lt_of_mem_children (List.mem_of_getElem? hchild)
    rw [List.length_cons]
    omega

/-- Some way down a tree is as long as the tree is high. -/
theorem exists_length_eq_height (e : Expr) :
    ∃ path n, e.at? path = some n ∧ path.length = e.height := by
  induction e using children_induction with
  | node e ih =>
    by_cases hpos : 0 < e.height
    · obtain ⟨child, hmem, hheight⟩ := exists_height_eq_of_pos hpos
      obtain ⟨i, hchild⟩ := List.mem_iff_getElem?.mp hmem
      obtain ⟨path, n, hn, hlength⟩ := ih child hmem
      refine ⟨i :: path, n, Option.bind_eq_some_iff.mpr ⟨child, hchild, hn⟩, ?_⟩
      rw [List.length_cons, hlength, hheight]
    · exact ⟨[], e, rfl, by rw [List.length_nil]; omega⟩

end QueryParity.Expr
