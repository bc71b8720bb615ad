import QueryParity.Catalog.Standard
import QueryParity.Config
import QueryParity.Generator
import QueryParity.Oracle
import QueryParity.Random.ChaCha

/-!
# Runs over random cases

A run draws one seed per iteration from a master generator. The seed of an iteration alone
determines its tree, so a failed iteration can be repeated without those before it.
-/

namespace QueryParity

/-- Generates cases and checks them. -/
structure Fuzzer where
  /-- Settings of the runs. -/
  config : Config
  /-- Operators of the trees. -/
  catalog : Catalog
  /-- Literals of the trees. -/
  constants : ConstantPool
  /-- Entities that rows are joined from. -/
  seedData : SeedData
  /-- Fresh slots for the placeholders of a tree. -/
  slots : RootSlots
  /-- Both paths over the cross join of the root types. -/
  oracle : Oracle

/-- The totals with one more verdict. -/
def Tally.add (t : Tally) : Verdict → Tally
  | .equivalent rows =>
    { t with equivalent := t.equivalent + 1, rowsCompared := t.rowsCompared + rows }
  | .skipped _ => { t with skipped := t.skipped + 1 }

namespace Fuzzer

/-- Check the settings and that no literal is missing, and lay out the root slots. -/
def prepare (config : Config) (catalog : Catalog) (constants : ConstantPool) :
    Except ConfigError RootSlots := do
  config.validate
  constants.validateFor catalog
  RootSlots.ofTypes config.rootTypes

/-- A fuzzer with the standard lowering. Everything that can be wrong is found here, except that
there may be too many rows to be counted, for which see `assemble?`. -/
def assemble (config : Config) (catalog : Catalog) (constants : ConstantPool)
    (seedData : SeedData) : Logged Event (Except ConfigError Fuzzer) := do
  match prepare config catalog constants with
  | .error e => pure (.error e)
  | .ok slots =>
    match ← Dataset.joined seedData config.rootTypes with
    | .error e => pure (.error e)
    | .ok d =>
      pure ((Oracle.ofDataset d .standard).map fun oracle =>
        { config, catalog, constants, seedData, slots, oracle })

/-- Whether assembly breaks off because the rows of the cross join are too many to be counted. This
comes after the checks of the settings and of the literals. -/
def overflows (config : Config) (catalog : Catalog) (constants : ConstantPool)
    (seedData : SeedData) : Bool :=
  (prepare config catalog constants).toBool && Dataset.overflows seedData config.rootTypes

/-- The assembly as it is carried out: it ends without a result where it breaks off. -/
def assemble? (config : Config) (catalog : Catalog) (constants : ConstantPool)
    (seedData : SeedData) : Option (Logged Event (Except ConfigError Fuzzer)) :=
  if overflows config catalog constants seedData then none
  else some (assemble config catalog constants seedData)

/-- A fuzzer with the standard catalog, constants and seed data. -/
def standard (config : Config) : Logged Event (Except ConfigError Fuzzer) := do
  match ← Catalog.assemble Catalog.standardDescriptors with
  | .error e => pure (.error e)
  | .ok catalog => assemble config catalog .standard .standard

/-- The assembly of the standard fuzzer as it is carried out: it ends without a result where it
breaks off. -/
def standard? (config : Config) : Option (Logged Event (Except ConfigError Fuzzer)) :=
  match (Catalog.assemble Catalog.standardDescriptors).value with
  | .error _ => some (standard config)
  | .ok catalog =>
    if overflows config catalog .standard .standard then none else some (standard config)

/-- The fuzzer with another lowering. -/
def withLowering (f : Fuzzer) (lowering : Lowering) : Fuzzer :=
  { f with oracle := { f.oracle with lowering } }

/-- The generator of the trees. -/
def generator (f : Fuzzer) : Generator where
  catalog := f.catalog
  constants := f.constants
  maxDepth := f.config.maxDepth.toNat
  constantOperandOdds := f.config.constantOperandOdds.toNat

/-- The case that a seed determines. -/
def generateCase (f : Fuzzer) (seed : UInt64) (iteration : Nat) :
    Logged Event (Except ConfigError Case) := do
  let supply : Supply ChaCha.Generator := ⟨f.slots, ChaCha.ofSeed seed⟩
  let (tree, _) ← f.generator.generate f.config.target supply
  pure ((Case.ofTree tree f.config.target f.config.rootTypes f.config.shape).map
    (·.withOrigin seed iteration f.config.maxDepth.toNat))

/-- Generate the case of a seed and check it. -/
def runSeed (f : Fuzzer) (seed : UInt64) (iteration : Nat) :
    Logged Event (Fuzzer × Except CheckError Verdict) := do
  match ← f.generateCase seed iteration with
  | .error e => pure (f, .error (.config e))
  | .ok case => do
    let (oracle, outcome) ← f.oracle.check case
    pure ({ f with oracle }, outcome)

/-- The remaining iterations of a run, one seed each. The first failure ends the run, and so does
`stop`, which is asked before each iteration. Seeds are taken as they are drawn: that a seed which
was drawn before is replaced by the next one is left out, and so is the word in which rows are
summed, since no run gets near its bound. -/
def runFrom (stop : Nat → Bool) : (remaining : Nat) → ChaCha.Generator → RunReport → Fuzzer →
    Logged Event (Fuzzer × Except CheckError RunReport)
  | 0, _, report, f => pure (f, .ok report)
  | remaining + 1, master, report, f => do
    let iteration := report.iterations
    if stop iteration then
      .emit (.runInterrupted iteration)
      pure (f, .ok report)
    else
      let (seed, master) := RandomSource.next64 master
      .emit (.iterationStarted iteration seed)
      match ← f.runSeed seed iteration with
      | (f, .error e) => do
        .emit (.iterationFailed iteration e)
        pure (f, .error e)
      | (f, .ok verdict) =>
        runFrom stop remaining master ⟨iteration + 1, report.tally.add verdict⟩ f

/-- Run all iterations of the settings unless `stop`, asked before each iteration, ends the run. -/
def runUntil (f : Fuzzer) (stop : Nat → Bool) :
    Logged Event (Fuzzer × Except CheckError RunReport) := do
  .emit (.runStarted f.config.iterations.toNat f.config.seed f.config.target
    f.config.maxDepth.toNat f.oracle.dataset.rows.length)
  let (f, outcome) ← runFrom stop f.config.iterations.toNat (ChaCha.ofSeed f.config.seed)
    ⟨0, .zero⟩ f
  let outcome ← .ofExcept outcome .runCompleted
  pure (f, outcome)

/-- Run all iterations of the settings. -/
def run (f : Fuzzer) : Logged Event (Fuzzer × Except CheckError RunReport) :=
  f.runUntil fun _ => false

end Fuzzer

end QueryParity
