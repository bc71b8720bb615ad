import QueryParity.Failure
import QueryParity.Logged
import QueryParity.Program.Basic
import QueryParity.Report

/-!
# Events

What the parts of a run report while they work, each with a level of importance and a text.
-/

namespace QueryParity

/-- Importance of an event, the most important first. -/
inductive Level where
  | error
  | warn
  | info
  | debug
  | trace
  deriving DecidableEq, Repr

namespace Level

/-- Position among the levels. -/
def rank : Level → Nat
  | .error => 0
  | .warn => 1
  | .info => 2
  | .debug => 3
  | .trace => 4

/-- Name of a level. -/
def label : Level → String
  | .error => "error"
  | .warn => "warn"
  | .info => "info"
  | .debug => "debug"
  | .trace => "trace"

/-- The level with the given label. -/
def ofLabel? : String → Option Level
  | "error" => some .error
  | "warn" => some .warn
  | "info" => some .info
  | "debug" => some .debug
  | "trace" => some .trace
  | _ => none

end Level

/-- Something that happened during a run. -/
inductive Event where
  /-- A rule replaced a node. -/
  | ruleFired (rule : String) (node replacement : Expr)
  /-- The rules were still applicable to what became of a node when their steps were used up. -/
  | unsettled (node : Expr) (steps : Nat) (kept : Expr)
  /-- A catalog was put together. -/
  | catalogReady (binaries unaries : Nat)
  /-- A tree was generated. -/
  | generated (target : ValueType) (tree : Expr)
  /-- Rows were joined from seed data. -/
  | joined (rows : Nat) (columns : List ValueType)
  /-- A query was compiled. -/
  | compiled (query : Nat) (program : Program)
  /-- Both paths raised a tolerated fault. -/
  | caseSkipped (iteration : Nat) (fault : Fault)
  /-- Both paths returned the same rows. -/
  | caseEquivalent (iteration rows : Nat)
  /-- A run began. -/
  | runStarted (iterations : Nat) (seed : UInt64) (target : ValueType) (maxDepth rows : Nat)
  /-- A run was interrupted. -/
  | runInterrupted (iteration : Nat)
  /-- An iteration began. -/
  | iterationStarted (iteration : Nat) (seed : UInt64)
  /-- An iteration failed. -/
  | iterationFailed (iteration : Nat) (error : CheckError)
  /-- A run ended. -/
  | runCompleted (report : RunReport)
  /-- A case of a sweep was equivalent. -/
  | sweepCaseEquivalent (label : String) (rows : Nat)
  /-- A case of a sweep was skipped. -/
  | sweepCaseSkipped (label : String) (fault : Fault)
  /-- A case of a sweep failed. -/
  | sweepCaseFailed (label : String) (error : CheckError)
  /-- A sweep over binary operators ended. -/
  | binarySweepCompleted (report : SweepReport)
  /-- A sweep over pairs of operators ended. -/
  | pairSweepCompleted (report : SweepReport)

namespace Event

/-- How important an event is. -/
def level : Event → Level
  | .ruleFired _ _ _ | .generated _ _ | .compiled _ _ => .trace
  | .catalogReady _ _ | .joined _ _ | .caseSkipped _ _ | .caseEquivalent _ _
  | .iterationStarted _ _ | .sweepCaseEquivalent _ _ | .sweepCaseSkipped _ _ => .debug
  | .runStarted _ _ _ _ _ | .runCompleted _ | .binarySweepCompleted _ | .pairSweepCompleted _ =>
    .info
  | .unsettled _ _ _ | .runInterrupted _ => .warn
  | .iterationFailed _ _ | .sweepCaseFailed _ _ => .error

/-- What is said about an event. -/
def message : Event → String
  | .ruleFired rule node replacement =>
    s!"Rule `{rule}` rewrote `{node.display}` into `{replacement.display}`"
  | .unsettled node steps kept =>
    s!"Rewriting `{node.display}` did not settle after {steps} step(s); keeping `{kept.display}`"
  | .catalogReady binaries unaries =>
    s!"Operator catalog ready: {binaries} binary and {unaries} unary operator(s)"
  | .generated target tree => s!"Generated `{target.label}` tree: {tree.display}"
  | .joined rows columns =>
    s!"Cross-joined {rows} row(s) over columns {ValueType.titles columns}"
  | .compiled query program => s!"Compiled query #{query}:\n{program.display}"
  | .caseSkipped iteration fault => s!"Iteration {iteration} skipped: {fault.message}"
  | .caseEquivalent iteration rows => s!"Iteration {iteration} equivalent over {rows} row(s)"
  | .runStarted iterations seed target maxDepth rows =>
    s!"Fuzzing {iterations} iteration(s) from master seed {seed} (target `{target.label}`, " ++
      s!"max depth {maxDepth}, {rows} row(s))"
  | .runInterrupted iteration => s!"Run interrupted before iteration {iteration}"
  | .iterationStarted iteration seed => s!"Iteration {iteration}: seed {seed}"
  | .iterationFailed iteration error => s!"Iteration {iteration} failed: {error.message}"
  | .runCompleted report => s!"Run complete: {report.message}"
  | .sweepCaseEquivalent label rows => s!"Sweep case `{label}` equivalent over {rows} row(s)"
  | .sweepCaseSkipped label fault => s!"Sweep case `{label}` skipped: {fault.message}"
  | .sweepCaseFailed label error => s!"Sweep case `{label}` failed: {error.message}"
  | .binarySweepCompleted report => s!"Binary sweep complete: {report.message}"
  | .pairSweepCompleted report => s!"Binary-then-unary sweep complete: {report.message}"

/-- The events that are at least as important as a level. -/
def atLeast (level : Level) (events : List Event) : List Event :=
  events.filter fun event => event.level.rank ≤ level.rank

end Event

end QueryParity
