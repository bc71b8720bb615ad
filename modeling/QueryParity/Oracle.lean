import QueryParity.Case
import QueryParity.Lowering
import QueryParity.Session

/-!
# Differential checks

A tree is evaluated on two independent paths. On the lowered path it is lowered, its placeholders
are bound to columns, and the result is compiled and run by a columnar session. On the reference
path the placeholders of the tree itself are bound, and the tree is interpreted row by row. Both
results must agree row for row.

A tolerated fault on both paths skips the case. A fault that is not tolerated is unexpected,
whatever the other path does, and a tolerated fault on one path only is a divergence. The judgement
on a case that fails is given back with a report, and only if its trees are printable.
-/

namespace QueryParity

/-- The two results of a query, one per path. -/
structure PathResults where
  /-- Result of the lowered path. -/
  lowered : Except Fault (List ResultRow)
  /-- Result of the reference path. -/
  reference : Except Fault (List ResultRow)

namespace PathResults

/-- The fault that ended a query. -/
def fault? {α : Type} : Except Fault α → Option Fault
  | .ok _ => none
  | .error fault => some fault

/-- The first fault that is not tolerated, the lowered path first. -/
def untolerated? (r : PathResults) : Option (EvalPath × Fault) :=
  [(EvalPath.lowered, fault? r.lowered), (.reference, fault? r.reference)].findSome?
    fun (path, fault) => (fault.filter fun fault => !fault.isTolerated).map (path, ·)

/-- What two lists of rows disagree on: their lengths, or else the first pair that differs. -/
def difference? (lowered reference : List ResultRow) : Option FailureKind :=
  if lowered.length = reference.length then
    ((lowered.zip reference).find? fun (t, r) => t ≠ r).map fun (t, r) => .rowMismatch t r
  else some (.rowCountMismatch lowered.length reference.length)

/-- Two lists of rows agree on everything exactly if they are the same. -/
theorem difference?_eq_none_iff {lowered reference : List ResultRow} :
    difference? lowered reference = none ↔ lowered = reference := by
  unfold difference?
  split
  · rename_i h
    simp only [Option.map_eq_none_iff, List.find?_eq_none]
    induction lowered generalizing reference with
    | nil => cases reference <;> simp_all
    | cons t ts ih => cases reference <;> simp_all
  · rename_i h
    simp only [reduceCtorEq, false_iff]
    rintro rfl
    exact h rfl

/-- The judgement on two results; `report` describes a failure. -/
def judge (r : PathResults) (report : FailureKind → FailureReport) : Except CheckError Verdict :=
  match r.lowered, r.reference with
  | .ok lowered, .ok reference =>
    match difference? lowered reference with
    | some kind => .error (.divergence (report kind))
    | none => .ok (.equivalent reference.length)
  | lowered, reference =>
    match r.untolerated? with
    | some (path, fault) => .error (.unexpected (report (.unexpectedFault path fault)))
    | none =>
      match fault? lowered, fault? reference with
      | some fault, some _ => .ok (.skipped fault)
      | t, r => .error (.divergence (report (.faultMismatch t r)))

end PathResults

/-- Both paths over one dataset. -/
structure Oracle where
  /-- The dataset by columns, for the lowered path. -/
  session : Session
  /-- The dataset by rows, for the reference path. -/
  dataset : Dataset
  /-- How trees are lowered on the lowered path. -/
  lowering : Lowering

namespace Oracle

/-- An oracle over a dataset. -/
def ofDataset (d : Dataset) (lowering : Lowering) : Except ConfigError Oracle := do
  let session ← Session.load d
  .ok ⟨session, d, lowering⟩

/-- The queries of the two paths. The placeholders of the lowered tree are replaced first. -/
def queries (case : Case) (tree : Expr) : Except SubstitutionError (Query × Query) := do
  let lowered ← case.substitution.replaceRoots tree
  let reference ← case.substitution.replaceRoots case.tree
  .ok (⟨lowered, case.shape⟩, ⟨reference, case.shape⟩)

/-- The event that reports a verdict. -/
def verdictEvent (case : Case) : Verdict → Event
  | .equivalent rows => .caseEquivalent case.iteration rows
  | .skipped fault => .caseSkipped case.iteration fault

/-- Check a case. The oracle changes only in the query count of its session. What is given back of
the outcome is `verdict?`. -/
def check (o : Oracle) (case : Case) : Logged Event (Oracle × Except CheckError Verdict) := do
  let tree ← o.lowering.lower case.tree
  match queries case tree with
  | .error e => pure (o, .error (.substitution e))
  | .ok (loweredQuery, referenceQuery) => do
    let (session, lowered) ← o.session.run loweredQuery
    let results : PathResults := ⟨lowered, o.dataset.query referenceQuery⟩
    let outcome ← .ofExcept (results.judge (case.report tree)) (verdictEvent case)
    pure ({ o with session }, outcome)

/-- What a check gives back: its outcome, or nothing if it breaks off in printing its report. -/
def verdict? (o : Oracle) (case : Case) : Option (Except CheckError Verdict) :=
  CheckError.returned? (o.check case).value.2

end Oracle

end QueryParity
