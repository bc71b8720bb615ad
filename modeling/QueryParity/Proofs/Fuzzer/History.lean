import QueryParity.Proofs.Fuzzer
import QueryParity.Proofs.Oracle.Agreement
import QueryParity.Sweep

/-!
# Earlier operations leave a fuzzer as it was

Runs and single seeds go on with the oracle that earlier operations have used; sweeps put together
oracles of their own. Whatever was done before, a fuzzer agrees with the one that was built, and
fuzzers that agree have the same outcome for every seed.
-/

namespace QueryParity.Fuzzer

/-- Two fuzzers agree if they differ at most in the traces of queries in their oracles. -/
structure Agree (f g : Fuzzer) : Prop where
  /-- The settings. -/
  config_eq : f.config = g.config
  /-- The operators. -/
  catalog_eq : f.catalog = g.catalog
  /-- The literals. -/
  constants_eq : f.constants = g.constants
  /-- The entities. -/
  seedData_eq : f.seedData = g.seedData
  /-- The slots that every tree begins with. -/
  slots_eq : f.slots = g.slots
  /-- The oracles. -/
  oracle : f.oracle.Agree g.oracle

variable {f g h : Fuzzer}

theorem Agree.refl (f : Fuzzer) : f.Agree f := ⟨rfl, rfl, rfl, rfl, rfl, .refl _⟩

theorem Agree.trans (hfg : f.Agree g) (hgh : g.Agree h) : f.Agree h :=
  ⟨hfg.config_eq.trans hgh.config_eq, hfg.catalog_eq.trans hgh.catalog_eq,
    hfg.constants_eq.trans hgh.constants_eq, hfg.seedData_eq.trans hgh.seedData_eq,
    hfg.slots_eq.trans hgh.slots_eq, hfg.oracle.trans hgh.oracle⟩

/-- Running a seed leaves a fuzzer that agrees with the one before. -/
theorem agree_runSeed (f : Fuzzer) (seed : UInt64) (iteration : Nat) :
    (f.runSeed seed iteration).value.1.Agree f := by
  obtain hsame | ⟨c, hrun⟩ := f.runSeed_fuzzer seed iteration
  · rw [hsame]
    exact .refl f
  · rw [hrun]
    exact ⟨rfl, rfl, rfl, rfl, rfl, f.oracle.agree_check c⟩

/-- Fuzzers that agree grow the same case from every seed. -/
theorem Agree.generateCase_eq (h : f.Agree g) (seed : UInt64) (iteration : Nat) :
    f.generateCase seed iteration = g.generateCase seed iteration := by
  rw [generateCase, generateCase, generator, generator, h.config_eq, h.catalog_eq, h.constants_eq,
    h.slots_eq]

/-- The outcome of a seed is that of the check of its case. -/
theorem outcome_runSeed (f : Fuzzer) (seed : UInt64) (iteration : Nat) :
    (f.runSeed seed iteration).value.2 =
      match (f.generateCase seed iteration).value with
      | .error e => .error (.config e)
      | .ok c => (f.oracle.check c).value.2 := by
  rw [runSeed, Logged.value_bind]
  cases (f.generateCase seed iteration).value <;> rfl

/-- Fuzzers that agree have the same outcome for every seed. -/
theorem Agree.runSeed_eq (h : f.Agree g) (seed : UInt64) (iteration : Nat) :
    (f.runSeed seed iteration).value.2 = (g.runSeed seed iteration).value.2 := by
  rw [outcome_runSeed, outcome_runSeed, h.generateCase_eq]
  cases (g.generateCase seed iteration).value with
  | error e => rfl
  | ok c => exact h.oracle.check_eq c

/-- The iterations of a run leave a fuzzer that agrees with the one before. -/
theorem agree_runFrom (f : Fuzzer) (stop : Nat → Bool) (remaining : Nat)
    (master : ChaCha.Generator) (report : RunReport) :
    (runFrom stop remaining master report f).value.1.Agree f := by
  induction remaining generalizing f master report with
  | zero => exact .refl f
  | succ remaining ih =>
    have hseed := f.agree_runSeed (RandomSource.next64 master).1 report.iterations
    rw [value_runFrom_succ]
    by_cases hstop : stop report.iterations = true
    · rw [if_pos hstop]
      exact .refl f
    · rw [if_neg hstop]
      cases hrun : (f.runSeed (RandomSource.next64 master).1 report.iterations).value with
      | mk last outcome =>
        rw [hrun] at hseed
        cases outcome with
        | error e => exact hseed
        | ok verdict => exact (ih last _ _).trans hseed

/-- A run is its iterations from the master generator of the settings. -/
theorem value_runUntil (f : Fuzzer) (stop : Nat → Bool) :
    (f.runUntil stop).value = (runFrom stop f.config.iterations.toNat
      (ChaCha.ofSeed f.config.seed) ⟨0, .zero⟩ f).value := by
  simp only [runUntil, Logged.value_bind, Logged.value_ofExcept, Logged.value_pure]

/-- What can be done with a fuzzer. -/
inductive Operation where
  /-- All iterations of the settings unless stopped. -/
  | run (stop : Nat → Bool)
  /-- One seed, possibly of an earlier iteration. -/
  | seed (seed : UInt64) (iteration : Nat)
  /-- A sweep over the predicates with two operands. -/
  | sweepBinaries (filterNulls : Bool)
  /-- A sweep over pairs of operators. -/
  | sweepPairs (filterNulls : Bool)

/-- The fuzzer after an operation. Sweeps have oracles of their own. -/
def perform (f : Fuzzer) : Operation → Fuzzer
  | .run stop => (f.runUntil stop).value.1
  | .seed seed iteration => (f.runSeed seed iteration).value.1
  | .sweepBinaries _ => f
  | .sweepPairs _ => f

/-- The fuzzer after a sequence of operations, whatever their outcomes are. -/
def used (f : Fuzzer) (history : List Operation) : Fuzzer := history.foldl perform f

/-- An operation leaves a fuzzer that agrees with the one before. -/
theorem agree_perform (f : Fuzzer) (operation : Operation) : (f.perform operation).Agree f := by
  cases operation with
  | run stop =>
    rw [perform, value_runUntil]
    exact f.agree_runFrom stop _ _ _
  | seed seed iteration => exact f.agree_runSeed seed iteration
  | sweepBinaries filterNulls => exact .refl f
  | sweepPairs filterNulls => exact .refl f

/-- A fuzzer agrees with what it was before any operations. -/
theorem agree_used (f : Fuzzer) (history : List Operation) : (f.used history).Agree f := by
  induction history generalizing f with
  | nil => exact .refl f
  | cons operation history ih => exact (ih (f.perform operation)).trans (f.agree_perform operation)

end QueryParity.Fuzzer
