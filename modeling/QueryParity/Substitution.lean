import QueryParity.ConfigError
import QueryParity.Expr.Transform
import QueryParity.Expr.Typing

/-!
# Substitution of placeholders

A substitution binds numbered placeholders to trees. All placeholders of a tree are replaced at
once, and each binding must have exactly the type that its placeholder declares.
-/

namespace QueryParity

/-- Why a placeholder cannot be replaced. -/
inductive SubstitutionError where
  /-- The placeholder has no binding. -/
  | unboundRoot (root : Nat)
  /-- The binding has another type than the placeholder. -/
  | typeMismatch (root : Nat) (expected found : ValueType)
  /-- The binding has no type. -/
  | illTypedBinding (root : Nat) (reason : TypeError)
  deriving DecidableEq, Repr

/-- What is said about a placeholder that cannot be replaced. -/
def SubstitutionError.message : SubstitutionError → String
  | .unboundRoot root => s!"Root placeholder `${root}` has no binding in the substitution map."
  | .typeMismatch root expected found =>
    s!"Root placeholder `${root}` is typed `{expected.label}`, but its binding is a " ++
      s!"`{found.label}` expression."
  | .illTypedBinding root reason =>
    s!"Binding of root placeholder `${root}` is ill-typed: {reason.message}"

/-- Bindings of placeholders. -/
structure Substitution where
  /-- Binding of each placeholder, by number. -/
  bindings : Array (Option Expr)

namespace Substitution

/-- No placeholder is bound. -/
def empty : Substitution := ⟨#[]⟩

/-- Bind every placeholder to the column of the same number; there may not be more columns than
indices. -/
def columns (types : List ValueType) : Except ConfigError Substitution :=
  if types.length ≤ indexLimit then
    .ok ⟨(types.zipIdx.map fun (type, i) => some (Expr.field i type)).toArray⟩
  else .error (.invalidSetting (.tooManyColumns types.length))

/-- Bind one placeholder, in place of an earlier binding. -/
def bind (s : Substitution) (root : Nat) (replacement : Expr) : Substitution :=
  ⟨(s.bindings ++ Array.replicate (root + 1 - s.bindings.size) none).setIfInBounds root
    (some replacement)⟩

/-- The binding of a placeholder. -/
def get? (s : Substitution) (root : Nat) : Option Expr := s.bindings[root]?.getD none

/-- Number of bound placeholders. -/
def count (s : Substitution) : Nat := s.bindings.countP Option.isSome

/-- A new binding is found under its number, and the others stay as they are. -/
theorem get?_bind (s : Substitution) (root other : Nat) (replacement : Expr) :
    (s.bind root replacement).get? other =
      if other = root then some replacement else s.get? other := by
  simp only [bind, get?, Array.getElem?_setIfInBounds, Array.size_append, Array.size_replicate]
  by_cases h : other = root
  · subst h
    have hs : other < s.bindings.size + (other + 1 - s.bindings.size) := by omega
    simp [hs]
  · have h' : root ≠ other := fun e => h e.symm
    simp only [h, h', if_false, Array.getElem?_append, Array.getElem?_replicate]
    split
    · rfl
    · rename_i hs
      rw [Array.getElem?_eq_none (by omega)]
      split <;> rfl

/-- The replacement of a node: the binding of a placeholder, nothing for other nodes. -/
def step (s : Substitution) (node : Expr) : Except SubstitutionError (Option Expr) :=
  match node with
  | .root index type =>
    match s.get? index with
    | none => .error (.unboundRoot index)
    | some replacement =>
      match replacement.infer with
      | .error reason => .error (.illTypedBinding index reason)
      | .ok found =>
        if found = type then .ok (some replacement)
        else .error (.typeMismatch index type found)
  | _ => .ok none

/-- The tree with every placeholder replaced, `none` if it has no placeholder, or the error of the
leftmost placeholder that cannot be replaced. -/
def replaceRoots? (s : Substitution) (e : Expr) : Except SubstitutionError (Option Expr) :=
  e.transform? s.step

/-- The tree with every placeholder replaced, or the error of the leftmost one that cannot be. -/
def replaceRoots (s : Substitution) (e : Expr) : Except SubstitutionError Expr := e.transform s.step

end Substitution

end QueryParity
