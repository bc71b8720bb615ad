import Mathlib.Data.List.Basic
import QueryParity.Proofs.Expr.Walk

/-!
# Positions in a tree

Equal trees may occur at several places of a tree. A place is known by the way that leads to it
from the top: at each node, the number of the child to go to. Listed in preorder, the ways are in
strictly ascending lexicographic order, and they are all ways that do not leave the tree.
-/

namespace QueryParity.Expr

/-- The node at the end of a way down from the top, if the way does not leave the tree. -/
def at? (e : Expr) : List Nat → Option Expr
  | [] => some e
  | i :: path => e.children[i]?.bind (at? · path)

/-- A way can be gone in two parts. -/
theorem at?_append (e : Expr) (path rest : List Nat) :
    e.at? (path ++ rest) = (e.at? path).bind (at? · rest) := by
  induction path generalizing e with
  | nil => rfl
  | cons i path ih =>
    rw [List.cons_append, at?, at?]
    cases e.children[i]? with
    | none => rfl
    | some child => exact ih child

/-- The last part of a way leads to a child. -/
theorem at?_concat_eq_some_iff {e n : Expr} {path : List Nat} {i : Nat} :
    e.at? (path ++ [i]) = some n ↔ ∃ m, e.at? path = some m ∧ m.children[i]? = some n := by
  rw [at?_append, Option.bind_eq_some_iff]
  have hchild (m : Expr) : m.at? [i] = m.children[i]? := Option.bind_fun_some _
  simp only [hchild]

/-- Nodes with the ways to them, seen from one level higher. -/
def fromParent (position : Nat) (nodes : List (List Nat × Expr)) : List (List Nat × Expr) :=
  nodes.map fun node => (position :: node.1, node.2)

mutual

/-- The nodes of a tree in preorder, each with the way to it. -/
def occurrences : Expr → List (List Nat × Expr)
  | .binary op l r =>
    ([], .binary op l r) :: (fromParent 0 l.occurrences ++ fromParent 1 r.occurrences)
  | .unary op a => ([], .unary op a) :: fromParent 0 a.occurrences
  | .call f args => ([], .call f args) :: occurrencesAll 0 args
  | leaf => [([], leaf)]

/-- The nodes of trees that are children of one node, the first of them at the given position. -/
def occurrencesAll (position : Nat) : List Expr → List (List Nat × Expr)
  | [] => []
  | e :: es => fromParent position e.occurrences ++ occurrencesAll (position + 1) es

end

/-- The nodes of the children of one node, child by child. -/
theorem occurrencesAll_eq_flatMap (position : Nat) (es : List Expr) :
    occurrencesAll position es =
      (es.zipIdx position).flatMap fun child => fromParent child.2 child.1.occurrences := by
  induction es generalizing position with
  | nil => rfl
  | cons e es ih => rw [occurrencesAll, ih, List.zipIdx_cons, List.flatMap_cons]

/-- The nodes of a tree are the tree and then the nodes of its children. -/
theorem occurrences_eq (e : Expr) :
    e.occurrences = ([], e) ::
      e.children.zipIdx.flatMap fun child => fromParent child.2 child.1.occurrences := by
  cases e with
  | binary op l r => simp [occurrences, children]
  | unary op a => simp [occurrences, children]
  | call f args => rw [occurrences, occurrencesAll_eq_flatMap, children]
  | _ => rfl

/-- A node that is not the topmost one is a node of a child. -/
theorem mem_flatMap_fromParent_iff {es : List Expr} {path : List Nat} {n : Expr} :
    (path, n) ∈ (es.zipIdx.flatMap fun child => fromParent child.2 child.1.occurrences) ↔
      ∃ i child rest, es[i]? = some child ∧ path = i :: rest ∧ (rest, n) ∈ child.occurrences := by
  simp only [List.mem_flatMap, List.mem_zipIdx_iff_getElem?, fromParent, List.mem_map, Prod.exists,
    Prod.mk.injEq]
  constructor
  · rintro ⟨child, i, hchild, rest, m, hm, rfl, rfl⟩
    exact ⟨i, child, rest, hchild, rfl, hm⟩
  · rintro ⟨i, child, rest, hchild, rfl, hm⟩
    exact ⟨child, i, hchild, rest, n, hm, rfl, rfl⟩

/-- The listed nodes are those at the ends of ways that do not leave the tree. -/
theorem mem_occurrences_iff {e n : Expr} {path : List Nat} :
    (path, n) ∈ e.occurrences ↔ e.at? path = some n := by
  induction path generalizing e with
  | nil =>
    rw [occurrences_eq, List.mem_cons, mem_flatMap_fromParent_iff, at?]
    simp [eq_comm]
  | cons i path ih =>
    rw [occurrences_eq, List.mem_cons, mem_flatMap_fromParent_iff, at?, Option.bind_eq_some_iff]
    simp only [Prod.mk.injEq, reduceCtorEq, false_and, false_or, List.cons.injEq]
    constructor
    · rintro ⟨_, child, _, hchild, ⟨rfl, rfl⟩, hn⟩
      exact ⟨child, hchild, ih.mp hn⟩
    · rintro ⟨child, hchild, hn⟩
      exact ⟨i, child, path, hchild, ⟨rfl, rfl⟩, ih.mpr hn⟩

/-- The ways to the nodes are in ascending lexicographic order: a node comes before the nodes below
it, and a child with the nodes below it before the next child. -/
theorem pairwise_lt_occurrences (e : Expr) :
    e.occurrences.Pairwise fun first later => first.1 < later.1 := by
  induction e using children_induction with
  | node e ih =>
    rw [occurrences_eq, List.pairwise_cons, List.pairwise_flatMap]
    refine ⟨?_, ?_, ?_⟩
    · rintro ⟨path, n⟩ h
      obtain ⟨i, child, rest, -, rfl, -⟩ := mem_flatMap_fromParent_iff.mp h
      exact List.nil_lt_cons _ _
    · rintro ⟨child, i⟩ h
      have hchild := ih child (List.mem_of_getElem? (List.mem_zipIdx_iff_getElem?.mp h))
      refine List.pairwise_map.mpr (hchild.imp fun hlt => ?_)
      exact List.cons_lt_cons_iff.mpr (.inr ⟨rfl, hlt⟩)
    · have hpositions : (e.children.zipIdx.map Prod.snd).Pairwise (· < ·) := by
        rw [List.zipIdx_map_snd]
        exact List.pairwise_lt_range' 1
      refine (List.pairwise_map.mp hpositions).imp fun {first later} hlt x hx y hy => ?_
      obtain ⟨node, -, rfl⟩ := List.mem_map.mp hx
      obtain ⟨node', -, rfl⟩ := List.mem_map.mp hy
      exact List.cons_lt_cons_iff.mpr (.inl hlt)

/-- No way is listed twice. -/
theorem nodup_occurrences (e : Expr) : (e.occurrences.map Prod.fst).Nodup := by
  refine (List.pairwise_map.mpr (pairwise_lt_occurrences e)).imp fun {first later} hlt heq => ?_
  rw [heq] at hlt
  exact List.lt_irrefl _ hlt

/-- Without the ways, the nodes are those listed in preorder. -/
theorem map_snd_occurrences (e : Expr) : e.occurrences.map Prod.snd = e.preorder := by
  induction e using children_induction with
  | node e ih =>
    have hbelow : ∀ children : List (Expr × Nat), (∀ child ∈ children, child.1 ∈ e.children) →
        (children.flatMap fun child => fromParent child.2 child.1.occurrences).map Prod.snd =
          (children.map Prod.fst).flatMap preorder := by
      intro children hchildren
      induction children with
      | nil => rfl
      | cons child rest ihrest =>
        rw [List.forall_mem_cons] at hchildren
        rw [List.flatMap_cons, List.map_append, ihrest hchildren.2, List.map_cons,
          List.flatMap_cons, ← ih _ hchildren.1, fromParent, List.map_map]
        rfl
    rw [occurrences_eq, preorder_eq, List.map_cons, hbelow, List.zipIdx_map_fst]
    intro child hchild
    exact List.mem_of_getElem? (List.mem_zipIdx_iff_getElem?.mp hchild)

/-- A tree has as many nodes as are listed with the ways to them. -/
theorem length_occurrences (e : Expr) : e.occurrences.length = e.size := by
  rw [← length_preorder, ← map_snd_occurrences, List.length_map]

end QueryParity.Expr
