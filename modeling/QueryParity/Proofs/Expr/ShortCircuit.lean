import QueryParity.Expr.Evaluate
import QueryParity.Proofs.Outcome

/-!
# Short-circuit connectives

A connective of three-valued logic can be replaced by the one that skips its right operand once the
left one decides. Where the connective has a value, so has the replacement, and it is the same: a
left operand that decides is the value whatever the right one is, nulls included. What is lost is
only the faults of operands that are skipped, and so it is for any number of replacements in a tree.
-/

namespace QueryParity

open Outcome

/-- The second result is a value if the first one is, and the same. -/
def RemovesFaults {α : Type} (x y : Except Fault α) : Prop := ∀ v, x = .ok v → y = .ok v

namespace RemovesFaults

variable {α β : Type}

theorem refl (x : Except Fault α) : RemovesFaults x x := fun _ h => h

theorem bind {x y : Except Fault α} {f g : α → Except Fault β} (h : RemovesFaults x y)
    (hrest : ∀ a, RemovesFaults (f a) (g a)) : RemovesFaults (x >>= f) (y >>= g) := by
  intro v hv
  obtain ⟨a, ha, hfa⟩ := bind_eq_ok_iff.mp hv
  exact bind_eq_ok_iff.mpr ⟨a, h a ha, hrest a v hfa⟩

end RemovesFaults

namespace BinaryOp

/-- The short-circuit form of a connective. -/
def shortCircuited : BinaryOp → BinaryOp
  | .and => .andAlso
  | .or => .orElse
  | op => op

/-- The two forms combine values in the same way. -/
theorem apply_shortCircuited (op : BinaryOp) : op.shortCircuited.apply = op.apply := by
  cases op <;> rfl

/-- A left operand that decides is the value of the connective, if it has one. -/
theorem eq_of_decides {op : BinaryOp} {a b v : Value} (hdecides : op.decides a = true)
    (hv : op.apply a b = .ok v) : v = a := by
  have hconnective : ∀ {site : FaultSite} {f : Option Bool → Option Bool → Option Bool}
      {left : Bool}, (∀ right, f (some left) right = some left) →
        connective site f (.bool left) b = .ok v → v = .bool left := by
    intro site f left hleft h
    obtain ⟨_, hl, h⟩ := bind_eq_ok_iff.mp h
    obtain ⟨right, -, h⟩ := bind_eq_ok_iff.mp h
    cases hl
    rw [hleft] at h
    exact (Except.ok.inj h).symm
  cases op with
  | andAlso =>
    cases a with
    | bool left =>
      cases left with
      | false => exact hconnective (fun _ => rfl) hv
      | true => cases hdecides
    | _ => cases hdecides
  | orElse =>
    cases a with
    | bool left =>
      cases left with
      | true => exact hconnective (fun right => by cases right <;> rfl) hv
      | false => cases hdecides
    | _ => cases hdecides
  | _ => cases hdecides

/-- What decides in one form decides in the short-circuit form. -/
theorem decides_shortCircuited {op : BinaryOp} {a : Value} (h : op.decides a = true) :
    op.shortCircuited.decides a = true := by
  cases op with
  | andAlso | orElse => exact h
  | _ => cases h

/-- An operator that combines values in the same way and skips its right operand more often has no
fault that the other one does not have. -/
theorem removesFaults_of_decides {op op' : BinaryOp} (happly : op'.apply = op.apply)
    (hdecides : ∀ a, op.decides a = true → op'.decides a = true) (a : Value)
    {right right' : Except Fault Value} (h : RemovesFaults right right') :
    RemovesFaults (if op.decides a then .ok a else right >>= op.apply a)
      (if op'.decides a then .ok a else right' >>= op'.apply a) := by
  intro v hv
  by_cases hop' : op'.decides a = true
  · rw [if_pos hop']
    by_cases hop : op.decides a = true
    · rwa [if_pos hop] at hv
    · rw [if_neg hop, bind_eq_ok_iff] at hv
      obtain ⟨b, -, hv⟩ := hv
      rw [← happly] at hv
      rw [eq_of_decides hop' hv]
  · rw [if_neg fun hop => hop' (hdecides a hop)] at hv
    rw [if_neg hop', happly]
    exact h.bind (fun _ => .refl _) v hv

end BinaryOp

namespace Expr

mutual

/-- The tree with the short-circuit form of the connectives at the chosen places. -/
def shortCircuit (chosen : List Nat → Bool) : Expr → Expr
  | .binary op l r =>
    .binary (if chosen [] then op.shortCircuited else op)
      (shortCircuit (fun path => chosen (0 :: path)) l)
      (shortCircuit (fun path => chosen (1 :: path)) r)
  | .unary op a => .unary op (shortCircuit (fun path => chosen (0 :: path)) a)
  | .call f args => .call f (shortCircuitAll chosen 0 args)
  | leaf => leaf

/-- The children of one node, the first of them at the given position, with the short-circuit form
of the connectives at the places that are chosen below the node. -/
def shortCircuitAll (chosen : List Nat → Bool) (position : Nat) : List Expr → List Expr
  | [] => []
  | e :: es =>
    shortCircuit (fun path => chosen (position :: path)) e ::
      shortCircuitAll chosen (position + 1) es

end

/-- The arguments of a call are evaluated with no new fault if each of them is. -/
theorem removesFaults_evaluateAll {row : List Value} {args : List Expr}
    (ih : ∀ a ∈ args, ∀ chosen,
      RemovesFaults (a.evaluate row) ((a.shortCircuit chosen).evaluate row))
    (chosen : List Nat → Bool) (position : Nat) :
    RemovesFaults (evaluateAll row args)
      (evaluateAll row (shortCircuitAll chosen position args)) := by
  induction args generalizing position with
  | nil => exact .refl _
  | cons a args ihargs =>
    rw [List.forall_mem_cons] at ih
    exact (ih.1 _).bind fun v => (ihargs ih.2 (position + 1)).bind fun vs => .refl _

/-- Short-circuiting connectives of a tree, at whatever places, leaves a value of the tree as it is
and takes nothing but faults away. The tree may be ill typed, and a skipped operand may fault. -/
theorem short_circuit_removes_faults_only (e : Expr) (chosen : List Nat → Bool) (row : List Value)
    (v : Value) (h : e.evaluate row = .ok v) : (e.shortCircuit chosen).evaluate row = .ok v := by
  suffices hremoves : ∀ chosen, RemovesFaults (e.evaluate row)
      ((e.shortCircuit chosen).evaluate row) from hremoves chosen v h
  clear h chosen
  intro chosen
  induction e generalizing chosen with
  | const | root | field => exact .refl _
  | binary op l r ihl ihr =>
    rw [shortCircuit, evaluate, evaluate]
    refine (ihl _).bind fun a => BinaryOp.removesFaults_of_decides ?_ (fun a hop => ?_) a (ihr _)
    · split
      · exact op.apply_shortCircuited
      · rfl
    · split
      · exact BinaryOp.decides_shortCircuited hop
      · exact hop
  | unary op a ih =>
    rw [shortCircuit, evaluate, evaluate]
    exact (ih _).bind fun a => .refl _
  | call f args ih =>
    rw [shortCircuit, evaluate, evaluate]
    exact (removesFaults_evaluateAll ih chosen 0).bind fun vs => .refl _

/-- The two outer connectives are replaced and the inner one is not. The null on the left of the
inner one does not decide, so its right operand is looked at in both forms. -/
theorem short_circuit_removes_faults_beside_null :
    (binary .orElse
        (binary .andAlso (field 1 .bool) (binary .or (field 0 .bool) (const (.bool true))))
        (unary .isNull (field 0 .bool))).evaluate [.null .bool, .bool true] =
      .ok (.bool true) :=
  short_circuit_removes_faults_only
    (binary .or
      (binary .and (field 1 .bool) (binary .or (field 0 .bool) (const (.bool true))))
      (unary .isNull (field 0 .bool)))
    (fun path => path.length < 2) [.null .bool, .bool true] (.bool true) rfl

/-- The converse fails: a skipped operand may divide by zero. -/
example :
    let zero := const (.int 0)
    let t := binary .and (const (.bool false)) (binary .equal (binary .divide zero zero) zero)
    t.evaluate [] = .error .divideByZero ∧
      (t.shortCircuit fun _ => true).evaluate [] = .ok (.bool false) :=
  ⟨rfl, rfl⟩

end Expr

end QueryParity
