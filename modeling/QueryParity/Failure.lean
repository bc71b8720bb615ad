import QueryParity.Expr.Printer
import QueryParity.Query
import QueryParity.Substitution

/-!
# Failures of a check

What two evaluation paths may disagree on, the report that describes a failed case, and the errors
with which a check can end.

A report comes with the printed text of its trees. So a check that fails gives its error back if
both trees are printable, and breaks off without a result otherwise. Runs and sweeps pass the error
of a check on, and break off where the check does.
-/

namespace QueryParity

/-- The two evaluation paths. -/
inductive EvalPath where
  /-- Lowered, compiled and run over columns. -/
  | lowered
  /-- Interpreted row by row. -/
  | reference
  deriving DecidableEq, Repr

/-- Name of a path in reports. -/
def EvalPath.name : EvalPath → String
  | .lowered => "translated"
  | .reference => "reference"

/-- What went wrong in a check. -/
inductive FailureKind where
  /-- The paths returned different numbers of rows. -/
  | rowCountMismatch (lowered reference : Nat)
  /-- The first pair of rows that differ. -/
  | rowMismatch (lowered reference : ResultRow)
  /-- One path faulted and the other did not, or they faulted differently. -/
  | faultMismatch (lowered reference : Option Fault)
  /-- A path raised a fault that is not tolerated. -/
  | unexpectedFault (path : EvalPath) (fault : Fault)
  deriving DecidableEq, Repr

namespace FailureKind

/-- A fault, or the absence of one. -/
def faultText : Option Fault → String
  | some fault => fault.message
  | none => "no fault"

/-- A result row in reports. -/
def rowText (r : ResultRow) : String := r.key.display ++ " = " ++ r.value.display

/-- What is said about a failure. -/
def message : FailureKind → String
  | .rowCountMismatch lowered reference =>
    s!"translated path returned {lowered} row(s), reference path {reference}"
  | .rowMismatch lowered reference =>
    s!"first differing row: translated {rowText lowered}, reference {rowText reference}"
  | .faultMismatch lowered reference =>
    s!"fault mismatch: translated path raised {faultText lowered}, reference path raised " ++
      faultText reference
  | .unexpectedFault path fault => s!"{path.name} path raised: {fault.message}"

end FailureKind

/-- Everything needed to repeat a failed case. The text of the trees is part of the report, so there
is a report only if it is printable. -/
structure FailureReport where
  /-- Seed of the iteration. -/
  seed : UInt64
  /-- Number of the iteration. -/
  iteration : Nat
  /-- Type of the tree. -/
  target : ValueType
  /-- Bound on the depth of the tree. -/
  maxDepth : Nat
  /-- Types of the placeholders. -/
  rootTypes : List ValueType
  /-- How the tree was queried. -/
  shape : QueryShape
  /-- The tree. -/
  tree : Expr
  /-- The tree as it was lowered. -/
  lowered : Expr
  /-- What went wrong. -/
  kind : FailureKind

/-- Whether the text of both trees can be put into a report. -/
def FailureReport.isPrintable (r : FailureReport) : Bool :=
  r.tree.isPrintable && r.lowered.isPrintable

/-- The report in five lines. -/
def FailureReport.message (r : FailureReport) : String :=
  s!"seed {r.seed} (iteration {r.iteration}), target `{r.target.label}`, " ++
    s!"max depth {r.maxDepth}, roots {ValueType.titles r.rootTypes}, shape {r.shape.title}\n" ++
    s!"  tree:      {r.tree.display}\n" ++
    s!"  rewritten: {r.lowered.display}\n" ++
    s!"  {r.kind.message}\n" ++
    s!"  reproduce with `Fuzzer::run_seed({r.seed}, {r.iteration})`"

/-- How a check can fail. -/
inductive CheckError where
  /-- A part of the run could not be put together. -/
  | config (e : ConfigError)
  /-- A placeholder could not be replaced. -/
  | substitution (e : SubstitutionError)
  /-- The paths disagree on rows, or on whether there is a fault. -/
  | divergence (report : FailureReport)
  /-- A fault was raised that is not tolerated. -/
  | unexpected (report : FailureReport)

namespace CheckError

/-- What is said about a failed check. -/
def message : CheckError → String
  | .config e => e.message
  | .substitution e => e.message
  | .divergence report =>
    "Translated and reference evaluations diverge.\n" ++ report.message
  | .unexpected report => "Unexpected evaluation fault.\n" ++ report.message

/-- The report of a divergence or an unexpected fault. -/
def report? : CheckError → Option FailureReport
  | .divergence report => some report
  | .unexpected report => some report
  | _ => none

/-- What is given back where an outcome is due: the outcome, or nothing where the check that failed
breaks off in printing its report. -/
def returned? {α : Type} (outcome : Except CheckError α) : Option (Except CheckError α) :=
  match outcome with
  | .ok a => some (.ok a)
  | .error e => if e.report?.all FailureReport.isPrintable then some (.error e) else none

end CheckError

/-- How a check can succeed. -/
inductive Verdict where
  /-- Both paths returned the same rows, so many of them. -/
  | equivalent (rows : Nat)
  /-- Both paths raised a tolerated fault. -/
  | skipped (fault : Fault)
  deriving DecidableEq, Repr

end QueryParity
