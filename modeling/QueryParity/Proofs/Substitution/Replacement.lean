import QueryParity.Expr.Build
import QueryParity.Proofs.Substitution

/-!
# When placeholders can be replaced

The placeholders of a tree are replaced exactly if each of them has a binding of its type. If not,
the leftmost one without such a binding is to blame. The result has the bindings in the places of
the placeholders, and nothing is replaced inside a binding. It has the type of the tree, or fails to
have one for the same reason. Columns leave no placeholder behind, and they leave the shape of the
tree.
-/

namespace QueryParity

namespace Expr

variable {f : Nat → ValueType → Expr}

/-- The placeholders of a bound tree are those of the bindings, one binding after the other. -/
theorem roots_mapRoots (f : Nat → ValueType → Expr) (e : Expr) :
    (e.mapRoots f).roots = e.roots.flatMap fun root => (f root.1 root.2).roots := by
  induction e with
  | const v => rw [mapRoots, roots_const, List.flatMap_nil]
  | field c t => rw [mapRoots, roots_field, List.flatMap_nil]
  | root i t => rw [mapRoots, roots_root, List.flatMap_singleton]
  | binary op l r ihl ihr =>
    rw [mapRoots, roots_binary, roots_binary, ihl, ihr, List.flatMap_append]
  | unary op a ih => rw [mapRoots, roots_unary, roots_unary, ih]
  | call g args ih =>
    rw [mapRoots, mapRootsAll_eq_map, roots_call, roots_call, List.flatMap_map, List.flatMap_assoc,
      List.flatMap_def, List.flatMap_def, List.map_congr_left ih]

/-- Trees that keep their heights stand below a node of the same height. -/
theorem heightBelow_map {g : Expr → Expr} {es : List Expr}
    (h : ∀ e ∈ es, (g e).height = e.height) : heightBelow (es.map g) = heightBelow es := by
  induction es with
  | nil => rfl
  | cons e es ih =>
    rw [List.forall_mem_cons] at h
    rw [List.map_cons, heightBelow, heightBelow, h.1, ih h.2]

/-- Trees that keep their numbers of nodes have as many nodes together. -/
theorem sizeAll_map {g : Expr → Expr} {es : List Expr}
    (h : ∀ e ∈ es, (g e).size = e.size) : sizeAll (es.map g) = sizeAll es := by
  induction es with
  | nil => rfl
  | cons e es ih =>
    rw [List.forall_mem_cons] at h
    rw [List.map_cons, sizeAll, sizeAll, h.1, ih h.2]

/-- Bindings without children leave the height of a tree. -/
theorem height_mapRoots {e : Expr} (h : ∀ i t, (f i t).height = 0) :
    (e.mapRoots f).height = e.height := by
  induction e with
  | const v | field c t => rfl
  | root i t => exact h i t
  | binary op l r ihl ihr => rw [mapRoots, height, height, ihl, ihr]
  | unary op a ih => rw [mapRoots, height, height, ih]
  | call g args ih => rw [mapRoots, mapRootsAll_eq_map, height, height, heightBelow_map ih]

/-- Bindings without children leave the number of nodes of a tree. -/
theorem size_mapRoots {e : Expr} (h : ∀ i t, (f i t).size = 1) :
    (e.mapRoots f).size = e.size := by
  induction e with
  | const v | field c t => rfl
  | root i t => exact h i t
  | binary op l r ihl ihr => rw [mapRoots, size, size, ihl, ihr]
  | unary op a ih => rw [mapRoots, size, size, ih]
  | call g args ih => rw [mapRoots, mapRootsAll_eq_map, size, size, sizeAll_map ih]

end Expr

namespace Substitution

variable {s : Substitution} {index : Nat} {type : ValueType} {error : SubstitutionError} {e : Expr}

/-- A placeholder has a binding of its type. -/
def Binds (s : Substitution) (index : Nat) (type : ValueType) : Prop :=
  ∃ replacement, s.get? index = some replacement ∧ replacement.infer = .ok type

/-- A placeholder has no binding of its type, for the reason that the error gives. -/
inductive Lacks (s : Substitution) (index : Nat) (type : ValueType) : SubstitutionError → Prop where
  /-- There is no binding. -/
  | unbound : s.get? index = none → Lacks s index type (.unboundRoot index)
  /-- The binding has no type. -/
  | illTyped {replacement : Expr} {reason : TypeError} : s.get? index = some replacement →
      replacement.infer = .error reason → Lacks s index type (.illTypedBinding index reason)
  /-- The binding has another type. -/
  | otherType {replacement : Expr} {found : ValueType} : s.get? index = some replacement →
      replacement.infer = .ok found → found ≠ type →
      Lacks s index type (.typeMismatch index type found)

/-- A placeholder has no error exactly if it has a binding of its type. -/
theorem rootError?_eq_none_iff : s.rootError? index type = none ↔ s.Binds index type := by
  rw [rootError?, step, Binds]
  cases s.get? index with
  | none => simp
  | some replacement =>
    cases hinfer : replacement.infer with
    | error reason => simp [hinfer]
    | ok found => by_cases hfound : found = type <;> simp [hinfer, hfound]

/-- The error of a placeholder is the reason why it has no binding of its type. -/
theorem rootError?_eq_some_iff :
    s.rootError? index type = some error ↔ s.Lacks index type error := by
  rw [rootError?, step]
  constructor
  · intro h
    cases hget : s.get? index with
    | none =>
      simp only [hget] at h
      cases h
      exact .unbound hget
    | some replacement =>
      cases hinfer : replacement.infer with
      | error reason =>
        simp only [hget, hinfer] at h
        cases h
        exact .illTyped hget hinfer
      | ok found =>
        by_cases hfound : found = type
        · simp only [hget, hinfer, hfound, if_true] at h
          cases h
        · simp only [hget, hinfer, hfound, if_false] at h
          cases h
          exact .otherType hget hinfer hfound
  · rintro (hget | ⟨hget, hinfer⟩ | ⟨hget, hinfer, hfound⟩)
    · simp only [hget]
    · simp only [hget, hinfer]
    · simp only [hget, hinfer, hfound, if_false]

/-- A placeholder that is replaced becomes a binding of its type. -/
theorem Binds.infer_bound (h : s.Binds index type) : (s.bound index type).infer = .ok type := by
  obtain ⟨replacement, hget, hinfer⟩ := h
  rwa [bound, hget]

/-- Every placeholder of a list has a binding of its type, or there is a first one that has none. -/
theorem firstError?_eq_none_iff {roots : List (Nat × ValueType)} :
    s.firstError? roots = none ↔ ∀ root ∈ roots, s.Binds root.1 root.2 := by
  simp only [firstError?, List.findSome?_eq_none_iff, rootError?_eq_none_iff]

/-- The error of a list of placeholders is that of the first one that has no binding of its type. -/
theorem firstError?_eq_some_iff {roots : List (Nat × ValueType)} :
    s.firstError? roots = some error ↔
      ∃ before index type after, roots = before ++ (index, type) :: after ∧
        (∀ root ∈ before, s.Binds root.1 root.2) ∧ s.Lacks index type error := by
  simp only [firstError?, List.findSome?_eq_some_iff, rootError?_eq_none_iff,
    rootError?_eq_some_iff, Prod.exists, and_comm]

/-- Replacement succeeds exactly if every placeholder has a binding of its type, and then the tree
is bound. -/
theorem replaceRoots_eq_ok_iff {result : Expr} :
    s.replaceRoots e = .ok result ↔
      (∀ root ∈ e.roots, s.Binds root.1 root.2) ∧ result = e.mapRoots s.bound := by
  rw [← firstError?_eq_none_iff, replaceRoots_eq]
  cases s.firstError? e.roots <;> simp [orFail, eq_comm]

/-- A placeholder that stands for a column of its type becomes the field. -/
theorem Binds.bound_columns {types : List ValueType} (h : s.Binds index type)
    (hs : columns types = .ok s) : s.bound index type = .field index type := by
  obtain ⟨replacement, hget, hinfer⟩ := h
  have hfield : replacement = .field index type := by
    rw [get?_columns hs, Option.map_eq_some_iff] at hget
    obtain ⟨found, -, rfl⟩ := hget
    cases hinfer
    rfl
  rw [bound, hget, Option.getD_some, hfield]

/-- The placeholders of a tree are replaced exactly if each of them has a binding of its type;
otherwise the error says why the leftmost one that has none has none. All are replaced at once: the
placeholders of the result are those of the bindings. The result has the type of the tree, or has
none for the same reason. If columns are bound, no placeholder is left, and depth and number of
nodes are those of the tree. -/
theorem placeholders_are_replaced_at_once (s : Substitution) (e : Expr) :
    ((∃ result, s.replaceRoots e = .ok result) ↔
      ∀ index type, .root index type ∈ e.preorder → s.Binds index type) ∧
    (∀ error, s.replaceRoots e = .error error ↔
      ∃ before index type after, e.roots = before ++ (index, type) :: after ∧
        (∀ root ∈ before, s.Binds root.1 root.2) ∧ s.Lacks index type error) ∧
    ∀ result, s.replaceRoots e = .ok result →
      result = e.mapRoots s.bound ∧
      result.roots = e.roots.flatMap (fun root => (s.bound root.1 root.2).roots) ∧
      result.infer = e.infer ∧
      ∀ types, columns types = .ok s →
        result.RootFree ∧ result.depth = e.depth ∧ result.nodeCount = e.nodeCount := by
  refine ⟨?_, fun error => ?_, fun result h => ?_⟩
  · simp only [replaceRoots_eq_ok_iff, exists_and_left, exists_eq, and_true, Prod.forall,
      Expr.mem_roots_iff]
  · rw [replaceRoots_eq_error_iff, firstError?_eq_some_iff]
  · obtain ⟨hbinds, rfl⟩ := replaceRoots_eq_ok_iff.mp h
    have hroot : ∀ i t, .root i t ∈ e.preorder → s.Binds i t := fun i t hm =>
      hbinds (i, t) (Expr.mem_roots_iff.mpr hm)
    refine ⟨rfl, Expr.roots_mapRoots s.bound e,
      Expr.infer_mapRoots fun i t hm => (hroot i t hm).infer_bound, fun types hs => ?_⟩
    have hfields : e.mapRoots s.bound = e.mapRoots .field :=
      Expr.mapRoots_congr fun i t hm => (hroot i t hm).bound_columns hs
    have hnone : (e.mapRoots .field).roots = [] := by
      rw [Expr.roots_mapRoots, List.flatMap_eq_nil_iff]
      exact fun root _ => Expr.roots_field root.1 root.2
    rw [hfields]
    refine ⟨fun i t hm => ?_, ?_, ?_⟩
    · rw [← Expr.mem_roots_iff, hnone] at hm
      cases hm
    · rw [Expr.depth_eq_height, Expr.depth_eq_height, Expr.height_mapRoots fun _ _ => rfl]
    · rw [Expr.nodeCount_eq_size, Expr.nodeCount_eq_size, Expr.size_mapRoots fun _ _ => rfl]

/-- Bindings that mention each other's placeholders, in an equation between an integer and a string:
each placeholder is replaced once, and the equation has no type before and after. With a binding of
another type for the second placeholder, that one is to blame; columns leave an equation of the same
shape. -/
theorem crossed_bindings_are_replaced_once :
    let e : Expr := .equal (.root 0 .int) (.root 1 .string)
    let crossed := (empty.bind 0 (.negate (.root 1 .int))).bind 1 (.convert .string (.root 0 .int))
    (∃ result, crossed.replaceRoots e = .ok result ∧
      result = .equal (.negate (.root 1 .int)) (.convert .string (.root 0 .int)) ∧
      result.roots = [(1, .int), (0, .int)] ∧
      result.infer = .error (.noSignature (.binary .equal) [.int, .string])) ∧
    (crossed.bind 1 (.root 0 .int)).replaceRoots e = .error (.typeMismatch 1 .string .int) ∧
    ∃ s result, columns [.int, .string] = .ok s ∧ s.replaceRoots e = .ok result ∧
      result.RootFree ∧ result.depth = 1 ∧ result.nodeCount = 3 := by
  intro e crossed
  refine ⟨?_, ?_, ?_⟩
  · obtain ⟨hok, -, hresult⟩ := placeholders_are_replaced_at_once crossed e
    have hbinds : ∀ index type, .root index type ∈ e.preorder → crossed.Binds index type := by
      intro index type hroot
      rw [← Expr.mem_roots_iff, Expr.roots_eq e] at hroot
      cases hroot with
      | head => exact ⟨_, rfl, rfl⟩
      | tail _ hroot =>
        cases List.mem_singleton.mp hroot
        exact ⟨_, rfl, rfl⟩
    obtain ⟨result, h⟩ := hok.mpr hbinds
    obtain ⟨hbound, -, hinfer, -⟩ := hresult result h
    refine ⟨result, h, hbound, ?_, hinfer⟩
    rw [hbound]
    exact Expr.roots_eq _
  · obtain ⟨-, herror, -⟩ := placeholders_are_replaced_at_once (crossed.bind 1 (.root 0 .int)) e
    refine (herror _).mpr ⟨[(0, .int)], 1, .string, [], Expr.roots_eq e, ?_, ?_⟩
    · exact List.forall_mem_singleton.mpr ⟨_, rfl, rfl⟩
    · exact .otherType rfl rfl nofun
  · let s : Substitution := ⟨#[some (.field 0 .int), some (.field 1 .string)]⟩
    have hresult : s.replaceRoots e = .ok (.equal (.field 0 .int) (.field 1 .string)) := rfl
    obtain ⟨-, -, hok⟩ := placeholders_are_replaced_at_once s e
    obtain ⟨-, -, -, hcolumns⟩ := hok _ hresult
    obtain ⟨hfree, hdepth, hcount⟩ := hcolumns [.int, .string] rfl
    refine ⟨s, _, rfl, hresult, hfree, hdepth.trans ?_, hcount.trans ?_⟩
    · rw [Expr.depth_eq_height]
      rfl
    · rw [Expr.nodeCount_eq_size]
      rfl

end Substitution

end QueryParity
