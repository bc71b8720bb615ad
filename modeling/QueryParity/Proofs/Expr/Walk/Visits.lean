import Mathlib.Data.List.Nodup
import Mathlib.Data.List.Perm.Basic
import QueryParity.Proofs.Expr.Positions

/-!
# The visits of a walk

A walk is followed by a visitor that does as another one does and writes down the visits: the way
to the node, what the visitor was shown, and what it ordered. This does not disturb the walk, so
what is written down is what the other visitor was called for. A fact about all visits is proved by
what a single visit keeps.
-/

namespace QueryParity.Expr

variable {σ ι : Type}

/-- A visit that was made. -/
structure Visited (ι : Type) where
  /-- The way to the visited node. -/
  path : List Nat
  /-- What the visitor was shown. -/
  visit : Visit ι
  /-- What it ordered. -/
  orders : List (Order ι)

/-- The way to the node of a pending visit. -/
def Visit.path (visit : Visit (List Nat × ι)) : List Nat := visit.input.1

/-- A pending visit as the visitor sees it, without the way to the node. -/
def Visit.plain (visit : Visit (List Nat × ι)) : Visit ι :=
  ⟨visit.node, visit.parent, visit.input.2⟩

/-- A pending visit once it was made. -/
def Visit.visited (visit : Visit (List Nat × ι)) (orders : List (Order ι)) : Visited ι :=
  ⟨visit.path, visit.plain, orders⟩

/-- An order given at the end of a way: the child it places is one step further. -/
def Order.under (path : List Nat) : Order ι → Order (List Nat × ι)
  | .clear => .clear
  | .place position placement input => .place position placement (path ++ [position], input)

/-- The queue after a visit, with the ways to the nodes. -/
def Visit.pendingAfter (visit : Visit (List Nat × ι)) (orders : List (Order ι))
    (pending : List (Visit (List Nat × ι))) : List (Visit (List Nat × ι)) :=
  visit.queueAfter (orders.map (.under visit.path)) pending

/-- The visitor, with the visits written down. -/
def Visitor.recorded (visitor : Visitor σ ι) : Visitor (σ × List (Visited ι)) (List Nat × ι) :=
  fun (state, log) visit =>
    let (state, orders) := visitor state visit.plain
    ((state, log ++ [visit.visited orders]), orders.map (.under visit.path))

/-- The visits of a walk, in the order in which they are made. -/
def visits (e : Expr) (input : ι) (state : σ) (visitor : Visitor σ ι) : List (Visited ι) :=
  (e.explore ([], input) (state, []) visitor.recorded).2

/-- The visitor is called for these visits, one after the other, it gives these orders, and it ends
in the last state. -/
inductive Calls (visitor : Visitor σ ι) : σ → List (Visited ι) → σ → Prop where
  | nil (state : σ) : Calls visitor state [] state
  | cons {state next last : σ} {entry : Visited ι} {log : List (Visited ι)} :
      visitor state entry.visit = (next, entry.orders) → Calls visitor next log last →
        Calls visitor state (entry :: log) last

/-- From a state and a queue, these visits are made until the queue is empty. -/
inductive Run (visitor : Visitor σ ι) :
    σ → List (Visit (List Nat × ι)) → List (Visited ι) → σ → Prop where
  | nil (state : σ) : Run visitor state [] [] state
  | cons {state last : σ} {visit : Visit (List Nat × ι)} {rest : List (Visit (List Nat × ι))}
      {log : List (Visited ι)} :
      Run visitor (visitor state visit.plain).1
        (visit.pendingAfter (visitor state visit.plain).2 rest) log last →
      Run visitor state (visit :: rest) (visit.visited (visitor state visit.plain).2 :: log) last

namespace Run

variable {visitor : Visitor σ ι} {state last : σ} {pending : List (Visit (List Nat × ι))}
  {log : List (Visited ι)}

/-- The visitor is called for the visits of a run. -/
theorem calls (h : Run visitor state pending log last) : Calls visitor state log last := by
  induction h with
  | nil state => exact .nil state
  | cons _ ih => exact .cons rfl ih

/-- What a visit keeps, whatever is ordered at it, is kept by a run. -/
theorem keeps {Inv : List (Visited ι) → List (Visit (List Nat × ι)) → Prop}
    (h : Run visitor state pending log last)
    (hstep : ∀ before visit rest orders, visit.visited orders ∈ log →
      Inv before (visit :: rest) →
        Inv (before ++ [visit.visited orders]) (visit.pendingAfter orders rest))
    {before : List (Visited ι)} (hinv : Inv before pending) : Inv (before ++ log) [] := by
  induction h generalizing before with
  | nil state => rwa [List.append_nil]
  | cons _ ih =>
    rw [List.append_cons]
    refine ih (fun before visit rest orders hmem => ?_) (hstep _ _ _ _ List.mem_cons_self hinv)
    exact hstep before visit rest orders (List.mem_cons_of_mem _ hmem)

end Run

section Recording

variable (visitor : Visitor σ ι)

theorem plain_obey (visit : Visit (List Nat × ι)) (path : List Nat)
    (pending : List (Visit (List Nat × ι))) (order : Order ι) :
    (visit.obey pending (order.under path)).map Visit.plain =
      visit.plain.obey (pending.map Visit.plain) order := by
  cases order with
  | clear => rfl
  | place position placement input =>
    rw [Order.under, Visit.obey, Visit.obey, Visit.plain]
    cases visit.node.children[position]? with
    | none => rfl
    | some child =>
      cases placement with
      | front => rfl
      | back => exact List.map_append

/-- Writing down does not disturb the queue. -/
theorem plain_pendingAfter (visit : Visit (List Nat × ι)) (orders : List (Order ι))
    (pending : List (Visit (List Nat × ι))) :
    (visit.pendingAfter orders pending).map Visit.plain =
      visit.plain.queueAfter orders (pending.map Visit.plain) := by
  rw [Visit.pendingAfter, Visit.queueAfter, Visit.queueAfter, List.foldl_map]
  exact (List.foldl_hom _ fun queue order => (plain_obey visit _ queue order).symm).symm

/-- Writing down does not disturb the walk, and what is written down is the run of the visitor. -/
theorem walkFrom_recorded (state : σ) (log : List (Visited ι))
    (pending : List (Visit (List Nat × ι))) :
    ∃ more, walkFrom visitor.recorded (state, log) pending =
        (walkFrom visitor state (pending.map Visit.plain), log ++ more) ∧
      Run visitor state pending more (walkFrom visitor state (pending.map Visit.plain)) := by
  generalize hs : (state, log) = s
  fun_induction walkFrom visitor.recorded s pending generalizing state log with
  | case1 s =>
    subst hs
    rw [List.map_nil, walkFrom]
    exact ⟨[], by rw [List.append_nil], .nil state⟩
  | case2 s visit rest s' orders' hnext ih =>
    subst hs
    obtain ⟨rfl, rfl⟩ := Prod.mk.inj hnext
    obtain ⟨more, hmore, hrun⟩ := ih _ _ rfl
    rw [← Visit.pendingAfter, plain_pendingAfter] at hmore hrun
    rw [List.append_assoc] at hmore
    rw [List.map_cons, walkFrom_cons]
    exact ⟨visit.visited _ :: more, hmore, .cons hrun⟩

/-- The visits of a walk are the run from its topmost node, and the walk ends as the run does. -/
theorem run_visits (e : Expr) (input : ι) (state : σ) :
    Run visitor state [⟨e, none, [], input⟩] (e.visits input state visitor)
      (e.explore input state visitor) := by
  obtain ⟨more, hmore, hrun⟩ := walkFrom_recorded visitor state [] [⟨e, none, [], input⟩]
  rw [visits, explore, hmore]
  exact hrun

end Recording

end QueryParity.Expr
