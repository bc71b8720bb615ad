/-!
# Totals

What a run or a sweep adds up over its cases.
-/

namespace QueryParity

/-- Totals over cases. -/
structure Tally where
  /-- Cases on which both paths returned the same rows. -/
  equivalent : Nat
  /-- Cases on which both paths raised a tolerated fault. -/
  skipped : Nat
  /-- Rows of the equivalent cases. -/
  rowsCompared : Nat
  deriving DecidableEq, Repr, Inhabited

namespace Tally

/-- No case yet. -/
def zero : Tally := ⟨0, 0, 0⟩

/-- The totals in words. -/
def message (t : Tally) : String :=
  s!"{t.equivalent} equivalent, {t.skipped} skipped, {t.rowsCompared} row(s) compared"

end Tally

/-- Totals of a run. -/
structure RunReport where
  /-- Iterations that were completed. -/
  iterations : Nat
  /-- Totals over the iterations. -/
  tally : Tally
  deriving DecidableEq, Repr, Inhabited

/-- The totals of a run in words. -/
def RunReport.message (r : RunReport) : String := s!"{r.iterations} iteration(s): {r.tally.message}"

/-- Totals of a sweep. -/
structure SweepReport where
  /-- Labels of the cases in the order in which they were checked. -/
  cases : List String
  /-- Totals over the cases. -/
  tally : Tally
  deriving DecidableEq, Repr, Inhabited

/-- The totals of a sweep in words. -/
def SweepReport.message (r : SweepReport) : String :=
  s!"{r.cases.length} case(s): {r.tally.message}"

end QueryParity
