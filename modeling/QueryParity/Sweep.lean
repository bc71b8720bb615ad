import QueryParity.Fuzzer

/-!
# Sweeps over a catalog

A sweep checks operators of the catalog one by one, over the cross join of the seed tables of their
input types. Cases over the same pair of input types share an oracle.
-/

namespace QueryParity

/-- One case of a sweep. -/
structure SweepCase where
  /-- Label in reports. -/
  label : String
  /-- Type of the first column. -/
  lhs : ValueType
  /-- Type of the second column. -/
  rhs : ValueType
  /-- A tree over two placeholders. -/
  tree : Expr
  /-- Type of the tree. -/
  result : ValueType

namespace SweepCase

/-- The case of an operator with two operands. -/
def ofBinary (e : Catalog.BinaryEntry) : SweepCase := ⟨e.label, e.lhs, e.rhs, e.sample, e.result⟩

/-- The case of an operator with two operands followed by one with one operand. -/
def ofPair (e : Catalog.BinaryEntry) (u : Catalog.UnaryEntry) : SweepCase :=
  ⟨e.label ++ " then " ++ u.label, e.lhs, e.rhs, u.build e.sample, u.result⟩

/-- The tree that is checked. A predicate may be guarded against nulls in both columns. -/
def guardedTree (c : SweepCase) (filterNulls : Bool) : Expr :=
  if c.result = .bool ∧ filterNulls then
    .andAlso (.andAlso (.isNotNull (.root 0 c.lhs)) (.isNotNull (.root 1 c.rhs))) c.tree
  else c.tree

/-- Predicates are checked as filters, other trees as projections. -/
def shape (c : SweepCase) : QueryShape := if c.result = .bool then .filter else .project

/-- The case to check, with the given number. -/
def toCase (c : SweepCase) (filterNulls : Bool) (iteration : Nat) : Except ConfigError Case :=
  (Case.ofTree (c.guardedTree filterNulls) c.result [c.lhs, c.rhs] c.shape).map fun case =>
    { case with iteration }

end SweepCase

/-- What a sweep has done so far. -/
structure Sweep where
  /-- The oracles in use, by the types of their columns. -/
  oracles : List ((ValueType × ValueType) × Oracle)
  /-- Totals over the cases so far. -/
  report : SweepReport

namespace Sweep

/-- Nothing so far. -/
def empty : Sweep := ⟨[], ⟨[], .zero⟩⟩

/-- The oracle of a pair of types. It is put together when it is first needed. -/
def oracleFor (s : Sweep) (f : Fuzzer) (types : ValueType × ValueType) :
    Logged Event (Except ConfigError Oracle) := do
  match s.oracles.lookup types with
  | some oracle => pure (.ok oracle)
  | none =>
    match ← Dataset.joined f.seedData [types.1, types.2] with
    | .error e => pure (.error e)
    | .ok d => pure (Oracle.ofDataset d f.oracle.lowering)

/-- The oracles with one of them put in, in place of an earlier one for the same types. -/
def setOracle (types : ValueType × ValueType) (oracle : Oracle) :
    List ((ValueType × ValueType) × Oracle) → List ((ValueType × ValueType) × Oracle)
  | [] => [(types, oracle)]
  | entry :: rest =>
    if entry.1 = types then (types, oracle) :: rest else entry :: setOracle types oracle rest

/-- The oracle of a case and the case as it is checked. -/
def stage (s : Sweep) (f : Fuzzer) (filterNulls : Bool) (c : SweepCase) :
    Logged Event (Except ConfigError (Oracle × Case)) := do
  let oracle ← s.oracleFor f (c.lhs, c.rhs)
  pure do
    let oracle ← oracle
    let case ← c.toCase filterNulls s.report.cases.length
    .ok (oracle, case)

/-- The event that reports a verdict. -/
def verdictEvent (label : String) : Verdict → Event
  | .equivalent rows => .sweepCaseEquivalent label rows
  | .skipped fault => .sweepCaseSkipped label fault

/-- Check one case. -/
def check (s : Sweep) (f : Fuzzer) (filterNulls : Bool) (c : SweepCase) :
    Logged Event (Except CheckError Sweep) := do
  match ← s.stage f filterNulls c with
  | .error e => pure (.error (.config e))
  | .ok (oracle, case) => do
    let (oracle, outcome) ← oracle.check case
    match outcome with
    | .error e => do
      .emit (.sweepCaseFailed c.label e)
      pure (.error e)
    | .ok verdict => do
      .emit (verdictEvent c.label verdict)
      pure (.ok ⟨setOracle (c.lhs, c.rhs) oracle s.oracles,
        ⟨s.report.cases ++ [c.label], s.report.tally.add verdict⟩⟩)

/-- Check cases in order up to the first failure. -/
def checkAll (f : Fuzzer) (filterNulls : Bool) : Sweep → List SweepCase →
    Logged Event (Except CheckError Sweep)
  | s, [] => pure (.ok s)
  | s, c :: cases => do
    match ← s.check f filterNulls c with
    | .error e => pure (.error e)
    | .ok s => checkAll f filterNulls s cases

end Sweep

namespace Fuzzer

/-- The cases of all predicates with two operands. -/
def binaryCases (f : Fuzzer) : List SweepCase := (f.catalog.binariesOf .bool).map .ofBinary

/-- The cases of all operators with two operands, each followed by every operator with one operand
that accepts its result. -/
def pairCases (f : Fuzzer) : List SweepCase :=
  ValueType.all.flatMap fun type =>
    (f.catalog.binariesOf type).flatMap fun e => (f.catalog.unariesAccepting type).map (.ofPair e)

/-- Check cases from the beginning; `completed` reports the totals. -/
def sweep (f : Fuzzer) (filterNulls : Bool) (cases : List SweepCase)
    (completed : SweepReport → Event) : Logged Event (Except CheckError SweepReport) := do
  let outcome ← Sweep.checkAll f filterNulls .empty cases
  .ofExcept (outcome.map Sweep.report) completed

/-- Check every predicate with two operands as a filter over two columns. With `filterNulls` rows
with a null are filtered out first. -/
def sweepBinaries (f : Fuzzer) (filterNulls : Bool) :
    Logged Event (Except CheckError SweepReport) :=
  f.sweep filterNulls f.binaryCases .binarySweepCompleted

/-- Check every operator with two operands, followed by every operator with one operand that accepts
its result. Predicates are guarded like those of `sweepBinaries`. -/
def sweepPairs (f : Fuzzer) (filterNulls : Bool) : Logged Event (Except CheckError SweepReport) :=
  f.sweep filterNulls f.pairCases .pairSweepCompleted

end Fuzzer

end QueryParity
