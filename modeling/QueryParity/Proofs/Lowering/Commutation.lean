import QueryParity.Proofs.Lowering.Binding
import QueryParity.Proofs.Substitution

/-!
# Rewriting before or after binding

Rules that neither look at a placeholder nor at the column that it is bound to offer the same before
and after binding, so lowering a tree and binding its placeholders can trade places. The standard
rules are of this kind. They also leave the placeholders of a tree as they are, in number and in
order, so whatever the bindings are, a lowered tree can be bound exactly if the tree can, and the
errors are the same.
-/

namespace QueryParity

/-- Every placeholder is replaced by a column or by a placeholder. -/
def Expr.RenamesRoots (f : Nat → ValueType → Expr) : Prop :=
  ∀ index type, (∃ column u, f index type = .field column u) ∨ ∃ j u, f index type = .root j u

/-- A rule that offers the same before and after placeholders are replaced. -/
def Rule.CommutesWith (f : Nat → ValueType → Expr) (rule : Rule) : Prop :=
  ∀ node, rule.replace? (node.mapRoots f) = (rule.replace? node).map (Expr.mapRoots f)

variable {f : Nat → ValueType → Expr}

namespace Lowering

variable {l : Lowering}

/-- Rules that commute with the replacement of placeholders find the same match before and after
it. -/
theorem firstMatch?_mapRoots (h : ∀ rule ∈ l.rules, rule.CommutesWith f) (node : Expr) :
    l.firstMatch? (node.mapRoots f) =
      (l.firstMatch? node).map fun found => (found.1, found.2.mapRoots f) := by
  unfold firstMatch?
  generalize l.rules = rules at h
  induction rules with
  | nil => rfl
  | cons rule rules ih =>
    rw [List.forall_mem_cons] at h
    rw [List.findSome?_cons, List.findSome?_cons, h.1, ih h.2]
    cases rule.replace? node <;> rfl

/-- A node settles before the replacement of placeholders as after it. -/
theorem value_settle?_mapRoots (h : ∀ rule ∈ l.rules, rule.CommutesWith f) (steps : Nat)
    (node : Expr) :
    (l.settle? steps (node.mapRoots f)).value =
      (l.settle? steps node).value.map (Expr.mapRoots f) := by
  induction steps generalizing node with
  | zero => rfl
  | succ steps ih =>
    rw [settle?, settle?, firstMatch?_mapRoots h]
    cases l.firstMatch? node with
    | none => rfl
    | some found =>
      simp only [Option.map_some, Logged.value_bind, Logged.value_pure, ih found.2]
      cases (l.settle? steps found.2).value <;> rfl

/-- Lowering a node and replacing placeholders trade places. -/
theorem value_replaced_mapRoots (h : ∀ rule ∈ l.rules, rule.CommutesWith f) (node : Expr) :
    (Expr.replaced l.lowerNode? (node.mapRoots f)).value =
      (Expr.replaced l.lowerNode? node).value.mapRoots f := by
  rw [Expr.replaced, Expr.replaced, Logged.value_bind, Logged.value_bind, Logged.value_pure,
    Logged.value_pure, value_lowerNode?, value_lowerNode?, value_settle?_mapRoots h]
  cases (l.settle? l.maxSteps node).value <;> rfl

/-- Lowering a tree and renaming its placeholders trade places. -/
theorem value_lower_mapRoots (hf : Expr.RenamesRoots f) (h : ∀ rule ∈ l.rules, rule.CommutesWith f)
    (e : Expr) : (l.lower (e.mapRoots f)).value = (l.lower e).value.mapRoots f := by
  rw [lower, lower, Expr.transform_eq_rebuild, Expr.transform_eq_rebuild]
  induction e with
  | const v => exact value_replaced_mapRoots h (.const v)
  | field c t => exact value_replaced_mapRoots h (.field c t)
  | root i t =>
    rw [Expr.rebuild, ← value_replaced_mapRoots h, Expr.mapRoots]
    obtain ⟨c, u, hcolumn⟩ | ⟨j, u, hroot⟩ := hf i t
    · rw [hcolumn, Expr.rebuild]
    · rw [hroot, Expr.rebuild]
  | binary op a b iha ihb =>
    rw [Expr.mapRoots, Expr.rebuild, Expr.rebuild]
    simp only [Logged.value_bind]
    rw [iha, ihb, ← value_replaced_mapRoots h, Expr.mapRoots]
  | unary op a ih =>
    rw [Expr.mapRoots, Expr.rebuild, Expr.rebuild]
    simp only [Logged.value_bind]
    rw [ih, ← value_replaced_mapRoots h, Expr.mapRoots]
  | call g args ih =>
    have hargs : (Expr.rebuildAll l.lowerNode? (Expr.mapRootsAll f args)).value =
        Expr.mapRootsAll f (Expr.rebuildAll l.lowerNode? args).value := by
      rw [value_rebuildAll, value_rebuildAll, Expr.mapRootsAll_eq_map, Expr.mapRootsAll_eq_map,
        List.map_map, List.map_map]
      exact List.map_congr_left ih
    rw [Expr.mapRoots, Expr.rebuild, Expr.rebuild]
    simp only [Logged.value_bind]
    rw [hargs, ← value_replaced_mapRoots h, Expr.mapRoots]

end Lowering

namespace Rule

/-- A constant call is found before the replacement of placeholders exactly if it is found after
it. -/
theorem constantCall?_mapRoots (hf : Expr.RenamesRoots f) (g : Func) (node : Expr) :
    constantCall? g (node.mapRoots f) =
      (constantCall? g node).map fun call => (call.1.mapRoots f, call.2) := by
  cases node with
  | root i t =>
    rw [Expr.mapRoots]
    obtain ⟨c, u, hcolumn⟩ | ⟨j, u, hroot⟩ := hf i t
    · rw [hcolumn]
      rfl
    · rw [hroot]
      rfl
  | call k args =>
    rw [Expr.mapRoots, Expr.mapRootsAll_eq_map]
    obtain _ | ⟨input, _ | ⟨second, rest⟩⟩ := args
    · rfl
    · rfl
    · cases second with
      | const v =>
        cases rest with
        | nil =>
          change (if k = g then some (input.mapRoots f, v) else none) =
            (if k = g then some (input, v) else none).map _
          split <;> rfl
        | cons third rest => rfl
      | root i t =>
        rw [List.map_cons, List.map_cons, Expr.mapRoots]
        obtain ⟨c, u, hcolumn⟩ | ⟨j, u, hroot⟩ := hf i t
        · rw [hcolumn]
          rfl
        · rw [hroot]
          rfl
      | _ => rfl
  | _ => rfl

/-- The simpler test that a pattern asks for does not depend on the placeholders of the input. -/
theorem simplerMatch?_mapRoots (input : Expr) (pattern : String) :
    simplerMatch? (input.mapRoots f) pattern =
      (simplerMatch? input pattern).map (Expr.mapRoots f) := by
  simp only [simplerMatch?]
  split
  · rfl
  · split
    · rfl
    · split
      · rfl
      · split
        · rfl
        · split <;> rfl
    · rfl

/-- The rule for wildcard matches commutes with the replacement of placeholders. -/
theorem likePattern_commutesWith (hf : Expr.RenamesRoots f) : likePattern.CommutesWith f := by
  intro node
  simp only [likePattern, constantCall?_mapRoots hf]
  cases constantCall? .like node with
  | none => rfl
  | some call =>
    obtain ⟨input, v⟩ := call
    cases v with
    | string pattern => exact simplerMatch?_mapRoots input pattern
    | _ => rfl

/-- The rule for the zone `UTC` commutes with the replacement of placeholders. -/
theorem utcTimeZone_commutesWith (hf : Expr.RenamesRoots f) : utcTimeZone.CommutesWith f := by
  intro node
  simp only [utcTimeZone, constantCall?_mapRoots hf]
  cases constantCall? .atTimeZone node with
  | none => rfl
  | some call =>
    obtain ⟨input, v⟩ := call
    cases v with
    | string zone =>
      change (if zone = "UTC" then some (input.mapRoots f) else none) =
        (if zone = "UTC" then some input else none).map _
      split <;> rfl
    | _ => rfl

end Rule

/-- The standard rules commute with the replacement of placeholders. -/
theorem standard_commutesWith (hf : Expr.RenamesRoots f) :
    ∀ rule ∈ Lowering.standard.rules, rule.CommutesWith f :=
  List.forall_mem_cons.mpr ⟨Rule.likePattern_commutesWith hf,
    List.forall_mem_singleton.mpr (Rule.utcTimeZone_commutesWith hf)⟩

/-- Columns replace every placeholder by a field, or leave it as it is. -/
theorem Substitution.renamesRoots_columns {types : List ValueType} {s : Substitution}
    (h : columns types = .ok s) : Expr.RenamesRoots s.bound := by
  intro index type
  rw [bound, get?_columns h]
  cases types[index]? with
  | none => exact .inr ⟨index, type, rfl⟩
  | some column => exact .inl ⟨index, column, rfl⟩

/-- Lowering by the standard rules commutes with binding to columns: on any tree, binding the
lowered tree gives the bound tree lowered, or fails with the same error. With any other bindings
too, binding the lowered tree fails exactly if binding the tree does, and with the same error, since
lowering keeps the placeholders, each as often and in the same order. -/
theorem standard_lower_commutes_with_binding (e : Expr) :
    (∀ types : List ValueType, types.length ≤ indexLimit →
      ∃ s, Substitution.columns types = .ok s ∧
        s.replaceRoots (Lowering.standard.lower e).value =
          (s.replaceRoots e).map fun bound => (Lowering.standard.lower bound).value) ∧
    (∀ (s : Substitution) (error : SubstitutionError),
      s.replaceRoots (Lowering.standard.lower e).value = .error error ↔
        s.replaceRoots e = .error error) ∧
    (Lowering.standard.lower e).value.roots = e.roots := by
  refine ⟨fun types hlength => ?_, fun s error => ?_, roots_standard e⟩
  · obtain ⟨s, hs⟩ := Substitution.exists_columns hlength
    have hf := Substitution.renamesRoots_columns hs
    refine ⟨s, hs, ?_⟩
    rw [Substitution.replaceRoots_eq, Substitution.replaceRoots_eq, roots_standard,
      ← Lowering.value_lower_mapRoots hf (standard_commutesWith hf)]
    cases s.firstError? e.roots <;> rfl
  · rw [Substitution.replaceRoots_eq_error_iff, Substitution.replaceRoots_eq_error_iff,
      roots_standard]

/-- A match with a placeholder that lowers to a test of the beginning, or a null test of a date-time
seen twice from `UTC`: bound to two columns, the tree and the lowered tree become the same, and
without bindings both fail at the first placeholder. -/
theorem match_or_null_test_commutes_with_binding :
    let e : Expr := .orElse (.like (.root 0 .string) (.stringLit "A%"))
      (.isNull (.atUtc (.atUtc (.root 1 .dateTime))))
    (∃ s, Substitution.columns [.string, .dateTime] = .ok s ∧
      s.replaceRoots (Lowering.standard.lower e).value =
        .ok (.orElse (.startsWith (.field 0 .string) (.stringLit "A"))
          (.isNull (.field 1 .dateTime)))) ∧
    Substitution.empty.replaceRoots (Lowering.standard.lower e).value = .error (.unboundRoot 0) ∧
    (Lowering.standard.lower e).value.roots = [(0, .string), (1, .dateTime)] := by
  intro e
  obtain ⟨hcolumns, herror, hroots⟩ := standard_lower_commutes_with_binding e
  obtain ⟨s, hs, hbound⟩ := hcolumns [.string, .dateTime] (by decide)
  refine ⟨⟨s, hs, ?_⟩, (herror _ _).mpr rfl, hroots.trans (Expr.roots_eq e)⟩
  cases hs
  exact hbound.trans rfl

end QueryParity
