import QueryParity.Proofs.Expr.Transform
import QueryParity.Proofs.Expr.Typing
import QueryParity.Substitution

/-!
# Binding of placeholders

A bound tree has every placeholder replaced at once. If what replaces a placeholder has its type,
the bound tree has the type of the tree; and its nodes are the other nodes of the tree, with their
placeholders bound, and the nodes of the bindings. Columns bind placeholders to fields.
-/

namespace QueryParity

open Outcome

namespace Expr

mutual

/-- The tree with every placeholder replaced, by number and type. -/
def mapRoots (f : Nat → ValueType → Expr) : Expr → Expr
  | .binary op l r => .binary op (l.mapRoots f) (r.mapRoots f)
  | .unary op a => .unary op (a.mapRoots f)
  | .call g args => .call g (mapRootsAll f args)
  | .const v => .const v
  | .root index type => f index type
  | .field column type => .field column type

/-- The trees with every placeholder replaced. -/
def mapRootsAll (f : Nat → ValueType → Expr) : List Expr → List Expr
  | [] => []
  | e :: es => e.mapRoots f :: mapRootsAll f es

end

variable {f : Nat → ValueType → Expr}

/-- Several trees are bound one by one. -/
theorem mapRootsAll_eq_map (es : List Expr) : mapRootsAll f es = es.map (mapRoots f) := by
  induction es with
  | nil => rfl
  | cons e es ih => rw [mapRootsAll, ih, List.map_cons]

/-- Bindings matter only at the placeholders of a tree. -/
theorem mapRoots_congr {g : Nat → ValueType → Expr} {e : Expr}
    (h : ∀ i t, .root i t ∈ e.preorder → f i t = g i t) : e.mapRoots f = e.mapRoots g := by
  induction e with
  | const v => rfl
  | root i t => exact h i t (self_mem_preorder _)
  | field c t => rfl
  | binary op l r ihl ihr =>
    have hl := ihl fun i t hm => h i t (by simp [hm])
    have hr := ihr fun i t hm => h i t (by simp [hm])
    rw [mapRoots, mapRoots, hl, hr]
  | unary op a ih =>
    have ha := ih fun i t hm => h i t (by simp [hm])
    rw [mapRoots, mapRoots, ha]
  | call k args ih =>
    have hargs : args.map (mapRoots f) = args.map (mapRoots g) :=
      List.map_congr_left fun a ha => ih a ha fun i t hm => h i t (mem_preorder_of_mem_args ha hm)
    rw [mapRoots, mapRoots, mapRootsAll_eq_map, mapRootsAll_eq_map, hargs]

/-- Trees that keep their types have the same types together. -/
theorem inferAll_map {g : Expr → Expr} {es : List Expr}
    (h : ∀ e ∈ es, (g e).infer = e.infer) : inferAll (es.map g) = inferAll es := by
  induction es with
  | nil => rfl
  | cons e es ih =>
    rw [List.forall_mem_cons] at h
    rw [List.map_cons, inferAll, inferAll, h.1, ih h.2]

/-- Bindings of the types of the placeholders leave the type of a tree, or the reason why it has
none. -/
theorem infer_mapRoots {e : Expr}
    (h : ∀ i t, .root i t ∈ e.preorder → (f i t).infer = .ok t) :
    (e.mapRoots f).infer = e.infer := by
  induction e with
  | const v => rfl
  | root i t => exact h i t (self_mem_preorder _)
  | field c t => rfl
  | binary op l r ihl ihr =>
    have hl := ihl fun i t hm => h i t (by simp [hm])
    have hr := ihr fun i t hm => h i t (by simp [hm])
    rw [mapRoots, infer, infer, hl, hr]
  | unary op a ih =>
    have ha := ih fun i t hm => h i t (by simp [hm])
    rw [mapRoots, infer, infer, ha]
  | call g args ih =>
    have hargs : ∀ a ∈ args, (a.mapRoots f).infer = a.infer := fun a ha =>
      ih a ha fun i t hm => h i t (mem_preorder_of_mem_args ha hm)
    rw [mapRoots, mapRootsAll_eq_map, infer, infer, inferAll_map hargs, List.length_map]

/-- A node that binding gives: another node of the tree than a placeholder, with its placeholders
bound, or a node of a binding. -/
def BoundNode (f : Nat → ValueType → Expr) (e n : Expr) : Prop :=
  (∃ m ∈ e.preorder, m.root? = none ∧ n = m.mapRoots f) ∨
    ∃ i t, .root i t ∈ e.preorder ∧ n ∈ (f i t).preorder

/-- Binding a part of a tree gives nodes that binding the tree gives. -/
theorem BoundNode.mono {part e n : Expr} (h : BoundNode f part n)
    (hsub : ∀ m ∈ part.preorder, m ∈ e.preorder) : BoundNode f e n := by
  obtain ⟨m, hm, hn⟩ | ⟨i, t, hm, hn⟩ := h
  · exact .inl ⟨m, hsub m hm, hn⟩
  · exact .inr ⟨i, t, hsub _ hm, hn⟩

/-- Binding gives every node of a bound tree. -/
theorem boundNode_of_mem {e n : Expr} (h : n ∈ (e.mapRoots f).preorder) : BoundNode f e n := by
  induction e with
  | const v => exact .inl ⟨_, self_mem_preorder _, rfl, mem_preorder_const.mp h⟩
  | field c t => exact .inl ⟨_, self_mem_preorder _, rfl, mem_preorder_field.mp h⟩
  | root i t => exact .inr ⟨i, t, self_mem_preorder _, h⟩
  | binary op l r ihl ihr =>
    rw [mapRoots, mem_preorder_binary] at h
    obtain rfl | h | h := h
    · exact .inl ⟨_, self_mem_preorder _, rfl, by rw [mapRoots]⟩
    · exact (ihl h).mono fun m hm => by simp [hm]
    · exact (ihr h).mono fun m hm => by simp [hm]
  | unary op a ih =>
    rw [mapRoots, mem_preorder_unary] at h
    obtain rfl | h := h
    · exact .inl ⟨_, self_mem_preorder _, rfl, by rw [mapRoots]⟩
    · exact (ih h).mono fun m hm => by simp [hm]
  | call g args ih =>
    rw [mapRoots, mapRootsAll_eq_map, mem_preorder_call] at h
    obtain rfl | ⟨_, harg, h⟩ := h
    · exact .inl ⟨_, self_mem_preorder _, rfl, by rw [mapRoots, mapRootsAll_eq_map]⟩
    · obtain ⟨a, ha, rfl⟩ := List.mem_map.mp harg
      exact (ih a ha h).mono fun m hm => mem_preorder_of_mem_args ha hm

/-- Placeholders that stand for columns of a schema are bound to fields of the schema. -/
theorem fits_mapRoots_field {schema : List ValueType} {e : Expr}
    (hroots : ∀ i t, .root i t ∈ e.preorder → schema[i]? = some t)
    (hfields : e.FieldsMatch schema) : (e.mapRoots .field).Fits schema where
  rootFree := by
    intro i t h
    obtain ⟨m, -, -, hn⟩ | ⟨j, u, -, hn⟩ := boundNode_of_mem h
    · cases m <;> cases hn
    · cases mem_preorder_field.mp hn
  fieldsMatch := by
    intro c t h
    obtain ⟨m, hm, hnone, hn⟩ | ⟨i, u, hm, hn⟩ := boundNode_of_mem h
    · cases m with
      | field c t =>
        cases hn
        exact hfields c t hm
      | root i u => cases hnone
      | _ => cases hn
    · cases mem_preorder_field.mp hn
      exact hroots c t hm

end Expr

namespace Substitution

variable {s : Substitution}

/-- The placeholder of a column is bound to the field of its number and type. -/
theorem get?_columns {types : List ValueType} (h : columns types = .ok s) (index : Nat) :
    s.get? index = types[index]?.map (.field index) := by
  unfold columns at h
  split at h
  · cases h
    simp only [get?, List.getElem?_toArray, List.getElem?_map, List.getElem?_zipIdx, Nat.zero_add]
    cases types[index]? <;> rfl
  · cases h

/-- A placeholder of the type of its column is replaced by the field. -/
theorem step_columns {types : List ValueType} (h : columns types = .ok s) {index : Nat}
    {type : ValueType} (hindex : types[index]? = some type) :
    s.step (.root index type) = .ok (some (.field index type)) := by
  have hget : s.get? index = some (.field index type) := by
    rw [get?_columns h, hindex, Option.map_some]
  rw [step, hget]
  simp only [Expr.infer, if_true]

/-- As many columns as there are indices can be bound. -/
theorem exists_columns {types : List ValueType} (h : types.length ≤ indexLimit) :
    ∃ s, columns types = .ok s :=
  ⟨_, if_pos h⟩

end Substitution

end QueryParity
