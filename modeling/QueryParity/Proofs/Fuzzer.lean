import QueryParity.Fuzzer
import QueryParity.Proofs.Generator.Trees
import QueryParity.Proofs.Oracle

/-!
# Runs of the standard fuzzer are clean

Every tree that the standard fuzzer grows, from whatever random words, has the target type, has
placeholders for its root slots only and changes zones to `UTC` only. So both paths of its oracle
have the same result, and the one fault that is possible is division by zero: every iteration is
equivalent or skipped, and every run is completed.
-/

namespace QueryParity

open Outcome

/-- A check is clean over a dataset if the paths are equivalent, on every row in case of a
projection, or divide by zero. -/
def Clean (shape : QueryShape) (d : Dataset) : Except CheckError Verdict → Prop
  | .ok (.equivalent rows) => shape = .project → rows = d.rows.length
  | .ok (.skipped fault) => fault = .divideByZero
  | .error _ => False

/-- Checks by an oracle with the standard rules are clean over a case whose nodes are admissible. -/
theorem Oracle.Standard.clean_check {o : Oracle} {c : Case} {t : ValueType}
    {slots : List ValueType} (ho : o.Standard) (hc : c.Over o.dataset.schema t)
    (hshape : c.shape = .filter → t = .bool)
    (hnodes : ∀ n ∈ c.tree.preorder, Expr.Admissible slots n) :
    Clean c.shape o.dataset (o.check c).value.2 := by
  rw [ho.check_eq_judge hc, PathResults.judge_same]
  cases hresult : o.dataset.query ⟨c.tree.mapRoots .field, c.shape⟩ with
  | ok rows =>
    intro hproject
    rw [hproject] at hresult
    exact Dataset.length_of_query_project hresult
  | error fault =>
    obtain ⟨r, -, hfault⟩ := Dataset.exists_possibleFault_of_query ho.conforms hc.infer_mapRoots
      hc.fits.fieldsMatch hshape hresult
    obtain rfl := Expr.eq_divideByZero_of_possibleFault hnodes hfault
    rfl

namespace Fuzzer

variable {f : Fuzzer}

/-- A fuzzer whose settings were accepted, with typed operators none of which takes a zone, and with
an oracle with the standard rules over rows of the root types. -/
structure Ready (f : Fuzzer) : Prop where
  /-- One slot per root type. -/
  slots_eq : f.slots.types = f.config.rootTypes
  /-- The slots can be bound to columns. -/
  length_le : f.config.rootTypes.length ≤ indexLimit
  /-- Trees of a filter are boolean. -/
  target_eq : f.config.shape = .filter → f.config.target = .bool
  /-- The operators. -/
  entries : ∀ e ∈ f.catalog.entries, e.Typed (· ≠ .atTimeZone)
  /-- The oracle. -/
  oracle : f.oracle.Standard
  /-- One column per root type. -/
  schema_eq : f.oracle.dataset.schema = f.config.rootTypes

/-- The case whose tree is grown from a source of random words. -/
def caseFrom {σ : Type} [RandomSource σ] (f : Fuzzer) (rng : σ) (seed : UInt64) (iteration : Nat) :
    Except ConfigError Case :=
  (Case.ofTree (f.generator.generate f.config.target ⟨f.slots, rng⟩).value.1 f.config.target
    f.config.rootTypes f.config.shape).map (·.withOrigin seed iteration f.config.maxDepth.toNat)

/-- The case of a seed is grown from the words of the seed. -/
theorem value_generateCase (f : Fuzzer) (seed : UInt64) (iteration : Nat) :
    (f.generateCase seed iteration).value = f.caseFrom (ChaCha.ofSeed seed) seed iteration := rfl

/-- From whatever random words, a case is grown and its check is clean. -/
theorem Ready.exists_clean_case {σ : Type} [RandomSource σ] (h : f.Ready) (rng : σ) (seed : UInt64)
    (iteration : Nat) :
    ∃ c, f.caseFrom rng seed iteration = .ok c ∧
      Clean f.config.shape f.oracle.dataset (f.oracle.check c).value.2 := by
  have hgrown := Generator.grows_generate f.generator f.config.target ⟨f.slots, rng⟩
  have hassembled := hgrown.assembled h.entries
  rw [h.slots_eq, ← h.schema_eq] at hassembled
  have hnodes := hassembled.admissible
  obtain ⟨s, hs⟩ := Substitution.exists_columns h.length_le
  refine ⟨_, by rw [caseFrom, Case.ofTree, hs]; rfl, ?_⟩
  refine h.oracle.clean_check ⟨hassembled.infer_eq, ?_, ?_, ?_⟩ h.target_eq hnodes
  · exact fun i u hroot => hnodes _ hroot
  · exact fun c u hfield => (hnodes _ hfield).elim
  · rw [h.schema_eq]
    exact hs

/-- Running a seed changes nothing in a fuzzer but its oracle, by a check at most. -/
theorem runSeed_fuzzer (f : Fuzzer) (seed : UInt64) (iteration : Nat) :
    (f.runSeed seed iteration).value.1 = f ∨
      ∃ c, (f.runSeed seed iteration).value.1 =
        { f with oracle := (f.oracle.check c).value.1 } := by
  rw [runSeed, Logged.value_bind]
  split
  · exact .inl rfl
  · exact .inr ⟨_, rfl⟩

/-- Running a seed leaves the settings. -/
theorem config_runSeed (f : Fuzzer) (seed : UInt64) (iteration : Nat) :
    (f.runSeed seed iteration).value.1.config = f.config := by
  obtain h | ⟨c, h⟩ := f.runSeed_fuzzer seed iteration <;> rw [h]

/-- Running a seed leaves the dataset. -/
theorem dataset_runSeed (f : Fuzzer) (seed : UInt64) (iteration : Nat) :
    (f.runSeed seed iteration).value.1.oracle.dataset = f.oracle.dataset := by
  obtain h | ⟨c, h⟩ := f.runSeed_fuzzer seed iteration <;> rw [h]
  exact f.oracle.dataset_check c

/-- A fuzzer that is ready remains so. -/
theorem Ready.runSeed (h : f.Ready) (seed : UInt64) (iteration : Nat) :
    (f.runSeed seed iteration).value.1.Ready := by
  obtain hsame | ⟨c, hrun⟩ := f.runSeed_fuzzer seed iteration
  · rwa [hsame]
  · rw [hrun]
    exact ⟨h.slots_eq, h.length_le, h.target_eq, h.entries, h.oracle.check c,
      (congrArg Dataset.schema (f.oracle.dataset_check c)).trans h.schema_eq⟩

/-- The verdict on a seed is clean. -/
theorem Ready.clean_runSeed (h : f.Ready) (seed : UInt64) (iteration : Nat) :
    Clean f.config.shape f.oracle.dataset (f.runSeed seed iteration).value.2 := by
  obtain ⟨c, hc, hclean⟩ := h.exists_clean_case (ChaCha.ofSeed seed) seed iteration
  rw [Fuzzer.runSeed, Logged.value_bind, value_generateCase, hc]
  exact hclean

/-- The totals of a run account for every iteration, and for all rows of every case that is
equivalent in case of a projection. -/
def AddsUp (shape : QueryShape) (d : Dataset) (report : RunReport) : Prop :=
  report.tally.equivalent + report.tally.skipped = report.iterations ∧
    (shape = .project → report.tally.rowsCompared = report.tally.equivalent * d.rows.length)

/-- Totals that add up still do so after a clean verdict. -/
theorem AddsUp.add {shape : QueryShape} {d : Dataset} {report : RunReport} {verdict : Verdict}
    (h : AddsUp shape d report) (hclean : Clean shape d (.ok verdict)) :
    AddsUp shape d ⟨report.iterations + 1, report.tally.add verdict⟩ := by
  obtain ⟨hcount, hrows⟩ := h
  cases verdict with
  | equivalent rows =>
    refine ⟨?_, fun hshape => ?_⟩
    · simp only [Tally.add]
      omega
    · simp only [Tally.add, hrows hshape, hclean hshape, Nat.succ_mul]
  | skipped fault => exact ⟨congrArg (· + 1) hcount, hrows⟩

/-- An iteration of a run: it is the last one if the run is stopped; otherwise the next seed is run,
and its verdict is added to the totals of the iterations that remain. -/
theorem value_runFrom_succ (f : Fuzzer) (stop : Nat → Bool) (remaining : Nat)
    (master : ChaCha.Generator) (report : RunReport) :
    (runFrom stop (remaining + 1) master report f).value =
      if stop report.iterations then (f, .ok report)
      else
        match (f.runSeed (RandomSource.next64 master).1 report.iterations).value with
        | (g, .error e) => (g, .error e)
        | (g, .ok verdict) =>
          (runFrom stop remaining (RandomSource.next64 master).2
            ⟨report.iterations + 1, report.tally.add verdict⟩ g).value := by
  rw [runFrom]
  by_cases hstop : stop report.iterations = true
  · rw [if_pos hstop, if_pos hstop]
    rfl
  · rw [if_neg hstop, if_neg hstop]
    simp only [Logged.value_bind]
    obtain ⟨g, outcome⟩ := (f.runSeed (RandomSource.next64 master).1 report.iterations).value
    cases outcome <;> rfl

/-- A fuzzer that is ready completes every run, with totals that add up. -/
theorem Ready.exists_runFrom (h : f.Ready) (remaining : Nat) (master : ChaCha.Generator)
    {report : RunReport} (hreport : AddsUp f.config.shape f.oracle.dataset report) :
    ∃ last, (runFrom (fun _ => false) remaining master report f).value.2 = .ok last ∧
      AddsUp f.config.shape f.oracle.dataset last ∧
      last.iterations = report.iterations + remaining := by
  induction remaining generalizing f master report with
  | zero => exact ⟨report, rfl, hreport, rfl⟩
  | succ remaining ih =>
    have hclean := h.clean_runSeed (RandomSource.next64 master).1 report.iterations
    have hready := h.runSeed (RandomSource.next64 master).1 report.iterations
    have hconfig := f.config_runSeed (RandomSource.next64 master).1 report.iterations
    have hdataset := f.dataset_runSeed (RandomSource.next64 master).1 report.iterations
    rw [value_runFrom_succ, if_neg Bool.false_ne_true]
    cases hrun : (f.runSeed (RandomSource.next64 master).1 report.iterations).value with
    | mk g outcome =>
      rw [hrun] at hclean hready hconfig hdataset
      cases outcome with
      | error e => exact False.elim hclean
      | ok verdict =>
        have hsum := hreport.add hclean
        rw [← hconfig, ← hdataset] at hsum ⊢
        obtain ⟨last, hlast, hadds, hcount⟩ := ih hready (RandomSource.next64 master).2 hsum
        refine ⟨last, hlast, hadds, ?_⟩
        rw [hcount, Nat.add_assoc, Nat.add_comm 1]

/-- A fuzzer that is ready completes a run of all its iterations. -/
theorem Ready.exists_run (h : f.Ready) :
    ∃ report, f.run.value.2 = .ok report ∧ AddsUp f.config.shape f.oracle.dataset report ∧
      report.iterations = f.config.iterations.toNat := by
  have hzero : AddsUp f.config.shape f.oracle.dataset ⟨0, .zero⟩ :=
    ⟨rfl, fun _ => (Nat.zero_mul _).symm⟩
  obtain ⟨report, hrun, hadds, hcount⟩ :=
    h.exists_runFrom f.config.iterations.toNat (ChaCha.ofSeed f.config.seed) hzero
  refine ⟨report, ?_, hadds, hcount.trans (Nat.zero_add _)⟩
  rw [run, runUntil]
  simp only [Logged.value_bind, Logged.value_ofExcept, Logged.value_pure, hrun]

/-- The fuzzer after earlier seeds were run on it. -/
def after (f : Fuzzer) (earlier : List (UInt64 × Nat)) : Fuzzer :=
  earlier.foldl (fun f run => (f.runSeed run.1 run.2).value.1) f

/-- Earlier seeds leave a fuzzer ready, with its settings and dataset. -/
theorem Ready.after (h : f.Ready) (earlier : List (UInt64 × Nat)) :
    (f.after earlier).Ready ∧ (f.after earlier).config = f.config ∧
      (f.after earlier).oracle.dataset = f.oracle.dataset := by
  induction earlier generalizing f with
  | nil => exact ⟨h, rfl, rfl⟩
  | cons run earlier ih =>
    obtain ⟨hready, hconfig, hdataset⟩ := ih (h.runSeed run.1 run.2)
    exact ⟨hready, hconfig.trans (f.config_runSeed run.1 run.2),
      hdataset.trans (f.dataset_runSeed run.1 run.2)⟩

/-- A fuzzer is assembled of the given parts after their checks, over the cross join of the entities
and with the standard lowering. -/
theorem parts_of_assemble {config : Config} {catalog : Catalog} {constants : ConstantPool}
    {seedData : SeedData} (h : (assemble config catalog constants seedData).value = .ok f) :
    config.validate = .ok () ∧ constants.validateFor catalog = .ok () ∧
      ∃ d o, Dataset.crossJoin seedData config.rootTypes = .ok d ∧
        Oracle.ofDataset d .standard = .ok o ∧
        f = ⟨config, catalog, constants, seedData, .fresh config.rootTypes, o⟩ := by
  unfold assemble at h
  cases hprepare : prepare config catalog constants with
  | error e =>
    rw [hprepare] at h
    cases h
  | ok slots =>
    simp only [hprepare, Logged.value_bind, Dataset.joined, Logged.value_ofExcept] at h
    cases hjoin : Dataset.crossJoin seedData config.rootTypes with
    | error e =>
      rw [hjoin] at h
      cases h
    | ok d =>
      obtain ⟨o, ho, -⟩ := Oracle.exists_ofDataset (Dataset.Built.crossJoin hjoin).conforms
      rw [hjoin] at h
      simp only [ho] at h
      cases h
      obtain ⟨_, hvalid, hrest⟩ := bind_eq_ok_iff.mp hprepare
      obtain ⟨_, hconstants, hslots⟩ := bind_eq_ok_iff.mp hrest
      obtain ⟨-, -, hlength, -⟩ := Config.validate_eq_ok_iff.mp hvalid
      rw [RootSlots.ofTypes, if_pos hlength] at hslots
      cases hslots
      exact ⟨hvalid, hconstants, d, o, rfl, ho, rfl⟩

/-- A fuzzer that is assembled with typed operators none of which takes a zone is ready, and its
rows are the cross join of its entities over the root types. -/
theorem ready_of_assemble {config : Config} {catalog : Catalog} {constants : ConstantPool}
    {seedData : SeedData} (hentries : ∀ e ∈ catalog.entries, e.Typed (· ≠ .atTimeZone))
    (h : (assemble config catalog constants seedData).value = .ok f) :
    f.Ready ∧ f.config = config ∧
      Dataset.crossJoin seedData config.rootTypes = .ok f.oracle.dataset := by
  obtain ⟨hvalid, -, d, o, hjoin, ho, rfl⟩ := parts_of_assemble h
  obtain ⟨-, -, hlength, htarget⟩ := Config.validate_eq_ok_iff.mp hvalid
  obtain ⟨o', ho', hstandard, hdataset⟩ :=
    Oracle.exists_ofDataset (Dataset.Built.crossJoin hjoin).conforms
  cases ho.symm.trans ho'
  refine ⟨⟨rfl, hlength, htarget, hentries, hstandard, ?_⟩, rfl, ?_⟩
  · change o.dataset.schema = config.rootTypes
    rw [hdataset, Dataset.eq_of_crossJoin hjoin]
  · change _ = Except.ok o.dataset
    rw [hjoin, hdataset]

/-- The standard fuzzer is ready, and its rows are the cross join of the standard entities over the
root types. -/
theorem ready_of_standard {config : Config} (h : (standard config).value = .ok f) :
    f.Ready ∧ f.config = config ∧
      Dataset.crossJoin .standard config.rootTypes = .ok f.oracle.dataset := by
  unfold standard at h
  rw [Logged.value_bind, Catalog.assemble, Logged.value_ofExcept] at h
  cases hcatalog : Catalog.ofDescriptors Catalog.standardDescriptors with
  | error e =>
    rw [hcatalog] at h
    cases h
  | ok catalog =>
    rw [hcatalog] at h
    exact ready_of_assemble (Catalog.typed_of_ofDescriptors hcatalog
      Catalog.plain_of_mem_standardDescriptors) h

/-- A fuzzer is assembled from accepted settings, if no literal and no entity is missing and the
rows can be counted. -/
theorem exists_assemble {config : Config} {catalog : Catalog} {constants : ConstantPool}
    {seedData : SeedData} (hvalid : config.validate = .ok ())
    (hconstants : constants.validateFor catalog = .ok ())
    (htables : ∀ type ∈ config.rootTypes, seedData.table type ≠ [])
    (hcounted : Dataset.overflows seedData config.rootTypes = false) :
    ∃ f, assemble? config catalog constants seedData =
        some (assemble config catalog constants seedData) ∧
      (assemble config catalog constants seedData).value = .ok f := by
  obtain ⟨-, -, hlength, -⟩ := Config.validate_eq_ok_iff.mp hvalid
  have hprepare : prepare config catalog constants = .ok (.fresh config.rootTypes) := by
    rw [prepare, hvalid, hconstants, ok_bind, ok_bind, RootSlots.ofTypes, if_pos hlength]
  have hjoin := Dataset.crossJoin_eq_ok htables
  obtain ⟨o, ho, -⟩ := Oracle.exists_ofDataset (Dataset.Built.crossJoin hjoin).conforms
  have hoverflows : overflows config catalog constants seedData = false := by
    rw [overflows, hcounted, Bool.and_false]
  refine ⟨⟨config, catalog, constants, seedData, .fresh config.rootTypes, o⟩,
    by rw [assemble?, hoverflows]; rfl, ?_⟩
  unfold assemble
  simp only [hprepare, Logged.value_bind, Dataset.joined, Logged.value_ofExcept, hjoin, ho,
    Logged.value_pure]
  rfl

/-- The standard literals suffice for every catalog. -/
theorem validateFor_standard (catalog : Catalog) :
    ConstantPool.standard.validateFor catalog = .ok () := by
  rw [ConstantPool.validateFor_eq_ok_iff]
  intro e _ type _
  cases type <;> decide

/-- The standard fuzzer is built with all settings that are accepted, if the rows can be counted. -/
theorem exists_standard {config : Config} (h : config.validate = .ok ())
    (hcounted : Dataset.overflows .standard config.rootTypes = false) :
    ∃ f, standard? config = some (standard config) ∧ (standard config).value = .ok f := by
  obtain ⟨catalog, hcatalog⟩ :
      ∃ catalog, Catalog.ofDescriptors Catalog.standardDescriptors = .ok catalog := ⟨_, rfl⟩
  have htables : ∀ type ∈ config.rootTypes, SeedData.standard.table type ≠ [] := by
    intro type _
    cases type <;> decide
  obtain ⟨f, -, hf⟩ := exists_assemble h (validateFor_standard catalog) htables hcounted
  have hoverflows : overflows config catalog .standard .standard = false := by
    rw [overflows, hcounted, Bool.and_false]
  refine ⟨f, ?_, ?_⟩
  · rw [standard?, Catalog.assemble, Logged.value_ofExcept, hcatalog]
    simp only [hoverflows, Bool.false_eq_true, if_false]
  · rw [standard, Logged.value_bind, Catalog.assemble, Logged.value_ofExcept, hcatalog]
    exact hf

/-- Whatever seeds were run before, every seed gives a clean verdict on the standard fuzzer: both
paths agree, under a projection on all rows of the cross join, or both divide by zero. This holds
for the tree of every seed and for a tree that is grown from any other source of random words. So a
run is completed, with all its iterations equivalent or skipped. -/
theorem standard_runs_are_clean (config : Config) (f : Fuzzer)
    (h : (standard config).value = .ok f) (earlier : List (UInt64 × Nat)) :
    Dataset.crossJoin .standard config.rootTypes = .ok f.oracle.dataset ∧
      (∀ seed iteration,
        Clean config.shape f.oracle.dataset ((f.after earlier).runSeed seed iteration).value.2) ∧
      (∀ (σ : Type) [RandomSource σ] (rng : σ) (seed : UInt64) (iteration : Nat),
        ∃ c, (f.after earlier).caseFrom rng seed iteration = .ok c ∧
          Clean config.shape f.oracle.dataset ((f.after earlier).oracle.check c).value.2) ∧
      ∃ report, (f.after earlier).run.value.2 = .ok report ∧
        report.iterations = config.iterations.toNat ∧
        report.tally.equivalent + report.tally.skipped = report.iterations ∧
        (config.shape = .project →
          report.tally.rowsCompared = report.tally.equivalent * f.oracle.dataset.rows.length) := by
  obtain ⟨hready, rfl, hjoin⟩ := ready_of_standard h
  obtain ⟨hafter, hconfig, hdataset⟩ := hready.after earlier
  obtain ⟨report, hrun, ⟨hcount, hrows⟩, hiterations⟩ := hafter.exists_run
  rw [hconfig] at hiterations hrows
  rw [hdataset] at hrows
  refine ⟨hjoin, fun seed iteration => ?_, fun σ _ rng seed iteration => ?_,
    report, hrun, hiterations, hcount, hrows⟩
  · rw [← hconfig, ← hdataset]
    exact hafter.clean_runSeed seed iteration
  · rw [← hconfig, ← hdataset]
    exact hafter.exists_clean_case rng seed iteration

/-- Under the standard settings a run has a hundred iterations, also after a seed was run. -/
theorem standard_run_of_standard_settings :
    ∃ f report, (standard .standard).value = .ok f ∧
      (f.after [(7, 0)]).run.value.2 = .ok report ∧ report.iterations = 100 ∧
      report.tally.equivalent + report.tally.skipped = 100 := by
  have hvalid : Config.standard.validate = .ok () := by decide
  obtain ⟨f, -, hf⟩ := exists_standard hvalid (by decide)
  obtain ⟨-, -, -, report, hrun, hiterations, hcount, -⟩ :=
    standard_runs_are_clean .standard f hf [(7, 0)]
  exact ⟨f, report, hf, hrun, hiterations, hcount.trans hiterations⟩

end Fuzzer

end QueryParity
