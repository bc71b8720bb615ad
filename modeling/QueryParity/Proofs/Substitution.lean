import QueryParity.Proofs.Expr.MapRoots
import QueryParity.Proofs.Expr.Walk

/-!
# Replacement of placeholders

Whether the placeholders of a tree can be replaced depends on the placeholders only: the leftmost
one that has no binding of its type decides the error. If there is none, every placeholder becomes
its binding at once.
-/

namespace QueryParity.Substitution

variable {s : Substitution}

/-- What a placeholder becomes: its binding, or itself if it has none. -/
def bound (s : Substitution) (index : Nat) (type : ValueType) : Expr :=
  (s.get? index).getD (.root index type)

/-- Why a placeholder cannot be replaced, if it cannot. -/
def rootError? (s : Substitution) (index : Nat) (type : ValueType) : Option SubstitutionError :=
  match s.step (.root index type) with
  | .error e => some e
  | .ok _ => none

/-- Why the first of some placeholders that cannot be replaced cannot. -/
def firstError? (s : Substitution) (roots : List (Nat × ValueType)) : Option SubstitutionError :=
  roots.findSome? fun root => s.rootError? root.1 root.2

/-- Without an error there is a result, and otherwise the error. -/
def orFail {ε α : Type} (error? : Option ε) (result : α) : Except ε α :=
  match error? with
  | some e => .error e
  | none => .ok result

/-- A placeholder is replaced by its binding, or its error is raised. -/
theorem step_root (s : Substitution) (index : Nat) (type : ValueType) :
    s.step (.root index type) = orFail (s.rootError? index type) (some (s.bound index type)) := by
  rw [rootError?, bound, step]
  cases s.get? index with
  | none => rfl
  | some replacement =>
    cases hinfer : replacement.infer with
    | error reason => simp only [hinfer, orFail]
    | ok found =>
      by_cases hfound : found = type <;> simp only [hinfer, hfound, if_true, if_false, orFail,
        Option.getD_some]

/-- The error of two lists of placeholders is that of the first one, or else that of the second. -/
theorem firstError?_append (s : Substitution) (roots roots' : List (Nat × ValueType)) :
    s.firstError? (roots ++ roots') = (s.firstError? roots).or (s.firstError? roots') :=
  List.findSome?_append

private theorem rebuildAll_step {args : List Expr}
    (ih : ∀ a ∈ args, a.rebuild s.step = orFail (s.firstError? a.roots) (a.mapRoots s.bound)) :
    Expr.rebuildAll s.step args =
      orFail (s.firstError? (args.flatMap Expr.roots)) (args.map (Expr.mapRoots s.bound)) := by
  induction args with
  | nil => rfl
  | cons a args ihs =>
    rw [List.forall_mem_cons] at ih
    rw [Expr.rebuildAll, ih.1, ihs ih.2, List.flatMap_cons, firstError?_append]
    cases s.firstError? a.roots <;> cases s.firstError? (args.flatMap Expr.roots) <;> rfl

/-- Replacing the placeholders of a tree gives the tree with every one bound, or the error of the
first one that cannot be replaced. -/
theorem replaceRoots_eq (s : Substitution) (e : Expr) :
    s.replaceRoots e = orFail (s.firstError? e.roots) (e.mapRoots s.bound) := by
  rw [replaceRoots, Expr.transform_eq_rebuild]
  induction e with
  | const v => rw [Expr.roots_const]; rfl
  | field c t => rw [Expr.roots_field]; rfl
  | root i t =>
    rw [Expr.rebuild, Expr.replaced, step_root, Expr.roots_root, firstError?,
      List.findSome?_singleton]
    cases s.rootError? i t <;> rfl
  | binary op l r ihl ihr =>
    rw [Expr.rebuild, ihl, ihr, Expr.roots_binary, firstError?_append]
    cases s.firstError? l.roots <;> cases s.firstError? r.roots <;> rfl
  | unary op a ih =>
    rw [Expr.rebuild, ih, Expr.roots_unary]
    cases s.firstError? a.roots <;> rfl
  | call f args ih =>
    rw [Expr.rebuild, rebuildAll_step ih, Expr.roots_call, Expr.mapRoots, Expr.mapRootsAll_eq_map]
    cases s.firstError? (args.flatMap Expr.roots) <;> rfl

/-- Trees with the same placeholders fail alike. -/
theorem replaceRoots_eq_error_iff {e : Expr} {err : SubstitutionError} :
    s.replaceRoots e = .error err ↔ s.firstError? e.roots = some err := by
  rw [replaceRoots_eq]
  cases s.firstError? e.roots <;> simp [orFail]

/-- A substitution that replaces every placeholder of a tree binds the tree. -/
theorem replaceRoots_eq_mapRoots {e : Expr} {f : Nat → ValueType → Expr}
    (h : ∀ i t, .root i t ∈ e.preorder → s.step (.root i t) = .ok (some (f i t))) :
    s.replaceRoots e = .ok (e.mapRoots f) := by
  have hreplaced : ∀ i t, .root i t ∈ e.preorder →
      s.rootError? i t = none ∧ s.bound i t = f i t := by
    intro i t hm
    have hstep := (step_root s i t).symm.trans (h i t hm)
    cases herror : s.rootError? i t with
    | some e =>
      rw [herror] at hstep
      cases hstep
    | none =>
      rw [herror] at hstep
      exact ⟨rfl, Option.some.inj (Except.ok.inj hstep)⟩
  have hnone : s.firstError? e.roots = none :=
    List.findSome?_eq_none_iff.mpr fun root hroot =>
      (hreplaced root.1 root.2 (Expr.mem_roots_iff.mp hroot)).1
  have hbound : e.mapRoots s.bound = e.mapRoots f :=
    Expr.mapRoots_congr fun i t hm => (hreplaced i t hm).2
  rw [replaceRoots_eq, hnone, orFail, hbound]

end QueryParity.Substitution
