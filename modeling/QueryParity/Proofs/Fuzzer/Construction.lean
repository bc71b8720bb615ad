import QueryParity.Proofs.Sweep

/-!
# What construction rules out

Settings, literals and the entities of the root types are checked when a fuzzer is put together, so
that no run and no seed fails because of the configuration later on. Sweeps join entities of the
operand types of the catalog, which need not be root types, and the tables of these are not checked:
a sweep over an operator for whose operands there is no entity fails because of the configuration.
-/

namespace QueryParity

open Outcome

/-- A tree over placeholders that can all be bound to columns is a case. -/
theorem Case.exists_ofTree {rootTypes : List ValueType} (h : rootTypes.length ≤ indexLimit)
    (tree : Expr) (target : ValueType) (shape : QueryShape) :
    ∃ c, Case.ofTree tree target rootTypes shape = .ok c := by
  obtain ⟨s, hs⟩ := Substitution.exists_columns h
  exact ⟨_, by rw [Case.ofTree, hs, ok_bind]⟩

namespace Sweep

variable {f : Fuzzer} {filterNulls : Bool}

/-- A new oracle cannot be put together only if one of its types has no entity. -/
theorem exists_emptySeedTable_of_newOracle {types : ValueType × ValueType} {e : ConfigError}
    (h : newOracle f types = .error e) :
    ∃ type, (type = types.1 ∨ type = types.2) ∧ e = .emptySeedTable type ∧
      f.seedData.table type = [] := by
  obtain hjoin | ⟨d, hjoin, hload⟩ := bind_eq_error_iff.mp h
  · obtain ⟨type, htype, he, hempty⟩ := Dataset.exists_emptySeedTable_of_crossJoin hjoin
    exact ⟨type, by simpa using htype, he, hempty⟩
  · have hconforms := (Dataset.Built.crossJoin hjoin).conforms
    obtain ⟨o, ho, -⟩ := Oracle.exists_over hconforms f.oracle.lowering
    rw [ho] at hload
    cases hload

/-- A case by itself fails because of the configuration only if one of its types has no entity. -/
theorem exists_emptySeedTable_of_outcomeAlone {iteration : Nat} {c : SweepCase} {e : ConfigError}
    (h : outcomeAlone f filterNulls iteration c = .error (.config e)) :
    ∃ type, (type = c.lhs ∨ type = c.rhs) ∧ e = .emptySeedTable type ∧
      f.seedData.table type = [] := by
  rw [outcomeAlone] at h
  cases hstage : stageAlone f filterNulls iteration c with
  | ok staged =>
    rw [hstage] at h
    exact absurd h (Oracle.check_ne_config staged.1 staged.2 e)
  | error found =>
    rw [hstage] at h
    cases h
    obtain hnew | ⟨o, -, hrest⟩ := bind_eq_error_iff.mp hstage
    · exact exists_emptySeedTable_of_newOracle hnew
    · have htwo : [c.lhs, c.rhs].length ≤ indexLimit := by
        change 2 ≤ indexLimit
        decide
      obtain ⟨base, hbase⟩ :=
        Case.exists_ofTree htwo (c.guardedTree filterNulls) c.result c.shape
      rw [SweepCase.toCase, hbase] at hrest
      cases hrest

end Sweep

namespace Fuzzer

variable {config : Config} {catalog : Catalog} {constants : ConstantPool} {seedData : SeedData}
  {f : Fuzzer}

/-- A fuzzer as there can be: put together from the given parts, possibly with other rules, and used
in whatever way. -/
inductive Built (config : Config) (catalog : Catalog) (constants : ConstantPool)
    (seedData : SeedData) : Fuzzer → Prop where
  /-- Its parts are accepted. -/
  | assemble {f : Fuzzer} : (assemble config catalog constants seedData).value = .ok f →
      Built config catalog constants seedData f
  /-- Its lowering is replaced. -/
  | withLowering {f : Fuzzer} (lowering : Lowering) : Built config catalog constants seedData f →
      Built config catalog constants seedData (f.withLowering lowering)
  /-- It is used. -/
  | perform {f : Fuzzer} (operation : Operation) : Built config catalog constants seedData f →
      Built config catalog constants seedData (f.perform operation)

/-- What construction has checked holds of a fuzzer for good: its slots can be bound to columns, and
there are entities of all root types. Its operators and entities are the given ones. -/
structure Checked (config : Config) (catalog : Catalog) (seedData : SeedData) (f : Fuzzer) :
    Prop where
  /-- The settings. -/
  config_eq : f.config = config
  /-- The operators. -/
  catalog_eq : f.catalog = catalog
  /-- The entities. -/
  seedData_eq : f.seedData = seedData
  /-- The root slots. -/
  length_le : config.rootTypes.length ≤ indexLimit
  /-- The tables of the root types. -/
  tables : ∀ type ∈ config.rootTypes, seedData.table type ≠ []

/-- Construction checks every fuzzer, and nothing that is done to it later undoes that. -/
theorem Built.checked (h : Built config catalog constants seedData f) :
    f.Checked config catalog seedData := by
  induction h with
  | assemble h =>
    obtain ⟨hvalid, -, d, o, hjoin, -, rfl⟩ := parts_of_assemble h
    obtain ⟨-, -, hlength, -⟩ := Config.validate_eq_ok_iff.mp hvalid
    exact ⟨rfl, rfl, rfl, hlength, Dataset.table_ne_nil_of_crossJoin hjoin⟩
  | withLowering lowering _ ih =>
    exact ⟨ih.config_eq, ih.catalog_eq, ih.seedData_eq, ih.length_le, ih.tables⟩
  | @perform g operation _ ih =>
    have hagree := g.agree_perform operation
    exact ⟨hagree.config_eq.trans ih.config_eq, hagree.catalog_eq.trans ih.catalog_eq,
      hagree.seedData_eq.trans ih.seedData_eq, ih.length_le, ih.tables⟩

/-- No seed fails because of the configuration. -/
theorem Checked.runSeed_ne_config (h : f.Checked config catalog seedData) (seed : UInt64)
    (iteration : Nat) (e : ConfigError) :
    (f.runSeed seed iteration).value.2 ≠ .error (.config e) := by
  have hlength : f.config.rootTypes.length ≤ indexLimit := by
    rw [h.config_eq]
    exact h.length_le
  rw [outcome_runSeed, value_generateCase, caseFrom]
  obtain ⟨c, hc⟩ := Case.exists_ofTree hlength
    (f.generator.generate f.config.target ⟨f.slots, ChaCha.ofSeed seed⟩).value.1
    f.config.target f.config.shape
  rw [hc]
  exact Oracle.check_ne_config f.oracle _ e

/-- No run fails because of the configuration. -/
theorem Checked.runUntil_ne_config (h : f.Checked config catalog seedData) (stop : Nat → Bool)
    (e : ConfigError) : (f.runUntil stop).value.2 ≠ .error (.config e) := by
  intro hfail
  have hsum := f.runUntil_eq_sumUp [] stop
  obtain ⟨k, -, -, houtcome, -⟩ := exists_iteration_of_sumUp (hsum.symm.trans hfail)
  exact h.runSeed_ne_config _ _ e houtcome

/-- If a sweep fails because of the configuration, it is at a case with a type that has no entity
and is not a root type. -/
theorem Checked.exists_emptySeedTable_of_sweep (h : f.Checked config catalog seedData)
    {filterNulls : Bool} {cases : List SweepCase} {completed : SweepReport → Event}
    {e : ConfigError} (hfail : (f.sweep filterNulls cases completed).value = .error (.config e)) :
    ∃ c ∈ cases, ∃ type, (type = c.lhs ∨ type = c.rhs) ∧ e = .emptySeedTable type ∧
      seedData.table type = [] ∧ type ∉ config.rootTypes := by
  rw [value_sweep] at hfail
  obtain ⟨k, c, hc, houtcome, -⟩ := Sweep.exists_case_of_sumAlone hfail
  obtain ⟨type, htype, he, hempty⟩ := Sweep.exists_emptySeedTable_of_outcomeAlone houtcome
  rw [h.seedData_eq] at hempty
  have hroot : type ∉ config.rootTypes := fun hmem => h.tables type hmem hempty
  exact ⟨c, List.mem_of_getElem? hc, type, htype, he, hempty, hroot⟩

/-- The operand types of a predicate with two operands. -/
theorem exists_entry_of_mem_binaryCases {c : SweepCase} (h : c ∈ f.binaryCases) :
    ∃ entry ∈ f.catalog.binariesOf .bool, c.lhs = entry.lhs ∧ c.rhs = entry.rhs := by
  obtain ⟨entry, hentry, rfl⟩ := List.mem_map.mp h
  exact ⟨entry, hentry, rfl, rfl⟩

/-- The operand types of a pair are those of its operator with two operands. -/
theorem exists_entry_of_mem_pairCases {c : SweepCase} (h : c ∈ f.pairCases) :
    ∃ result, ∃ entry ∈ f.catalog.binariesOf result, c.lhs = entry.lhs ∧ c.rhs = entry.rhs := by
  obtain ⟨result, -, h⟩ := List.mem_flatMap.mp h
  obtain ⟨entry, hentry, h⟩ := List.mem_flatMap.mp h
  obtain ⟨u, -, rfl⟩ := List.mem_map.mp h
  exact ⟨result, entry, hentry, rfl, rfl⟩

/-- Once a fuzzer is put together, from whatever parts, no seed and no run fails because of the
configuration. A sweep does so only at an operator with two operands one of which has a type that is
not a root type and has no entity. -/
theorem built_fuzzer_lacks_operand_entities_only (config : Config) (catalog : Catalog)
    (constants : ConstantPool) (seedData : SeedData) (f : Fuzzer)
    (h : Built config catalog constants seedData f) (e : ConfigError) :
    (∀ seed iteration, (f.runSeed seed iteration).value.2 ≠ .error (.config e)) ∧
      (∀ stop, (f.runUntil stop).value.2 ≠ .error (.config e)) ∧
      f.run.value.2 ≠ .error (.config e) ∧
      (∀ filterNulls, (f.sweepBinaries filterNulls).value = .error (.config e) →
        ∃ entry ∈ catalog.binariesOf .bool, ∃ type, (type = entry.lhs ∨ type = entry.rhs) ∧
          e = .emptySeedTable type ∧ seedData.table type = [] ∧ type ∉ config.rootTypes) ∧
      ∀ filterNulls, (f.sweepPairs filterNulls).value = .error (.config e) →
        ∃ result, ∃ entry ∈ catalog.binariesOf result,
          ∃ type, (type = entry.lhs ∨ type = entry.rhs) ∧
            e = .emptySeedTable type ∧ seedData.table type = [] ∧ type ∉ config.rootTypes := by
  have hchecked := h.checked
  refine ⟨fun seed iteration => hchecked.runSeed_ne_config seed iteration e,
    fun stop => hchecked.runUntil_ne_config stop e, hchecked.runUntil_ne_config _ e, ?_, ?_⟩
  · intro filterNulls hfail
    obtain ⟨c, hc, hempty⟩ := hchecked.exists_emptySeedTable_of_sweep hfail
    obtain ⟨entry, hentry, hlhs, hrhs⟩ := exists_entry_of_mem_binaryCases hc
    rw [hchecked.catalog_eq] at hentry
    rw [hlhs, hrhs] at hempty
    exact ⟨entry, hentry, hempty⟩
  · intro filterNulls hfail
    obtain ⟨c, hc, hempty⟩ := hchecked.exists_emptySeedTable_of_sweep hfail
    obtain ⟨result, entry, hentry, hlhs, hrhs⟩ := exists_entry_of_mem_pairCases hc
    rw [hchecked.catalog_eq] at hentry
    rw [hlhs, hrhs] at hempty
    exact ⟨result, entry, hentry, hempty⟩

/-- The error of the configuration with which an outcome fails. -/
def configError? {α : Type} : Except CheckError α → Option ConfigError
  | .error (.config e) => some e
  | _ => none

/-- An outcome has an error of the configuration exactly if it fails with it. -/
theorem configError?_eq_some_iff {α : Type} {outcome : Except CheckError α} {e : ConfigError} :
    configError? outcome = some e ↔ outcome = .error (.config e) := by
  obtain (found | _ | _ | _) | a := outcome <;> simp [configError?]

/-- Settings for rows of one truth value. -/
def oneBoolean : Config := { Config.standard with rootTypes := [.bool] }

/-- The standard operators can be had with a truth value as the only entity, and then the sweep over
predicates fails for want of integers. -/
theorem exists_failed_boolean_sweep :
    ∃ catalog f, Catalog.ofDescriptors Catalog.standardDescriptors = .ok catalog ∧
      (assemble oneBoolean catalog .standard ⟨[.bool true]⟩).value = .ok f ∧
      (f.sweepBinaries false).value = .error (.config (.emptySeedTable .int)) := by
  have hsweep : ((Catalog.ofDescriptors Catalog.standardDescriptors).toOption.bind fun catalog =>
      (assemble oneBoolean catalog .standard ⟨[.bool true]⟩).value.toOption.bind fun f =>
        configError? (f.sweepBinaries false).value) = some (.emptySeedTable .int) := by
    decide +kernel
  obtain ⟨catalog, hcatalog⟩ :
      ∃ catalog, Catalog.ofDescriptors Catalog.standardDescriptors = .ok catalog := ⟨_, rfl⟩
  rw [hcatalog] at hsweep
  cases hf : (assemble oneBoolean catalog .standard ⟨[.bool true]⟩).value with
  | error e =>
    simp only [Except.toOption, Option.bind_some, hf] at hsweep
    cases hsweep
  | ok f =>
    simp only [Except.toOption, Option.bind_some, hf] at hsweep
    exact ⟨catalog, f, hcatalog, hf, configError?_eq_some_iff.mp hsweep⟩

/-- With a truth value as the only entity, runs do not fail because of the configuration, and the
sweep over predicates does so at an operator on integers. -/
theorem built_fuzzer_lacks_integers :
    ∃ catalog f, Built oneBoolean catalog .standard ⟨[.bool true]⟩ f ∧
      f.run.value.2 ≠ .error (.config (.emptySeedTable .int)) ∧
      (f.sweepBinaries false).value = .error (.config (.emptySeedTable .int)) ∧
      ∃ entry ∈ catalog.binariesOf .bool, entry.lhs = .int ∨ entry.rhs = .int := by
  obtain ⟨catalog, f, -, hf, hfail⟩ := exists_failed_boolean_sweep
  obtain ⟨-, -, hrun, hsweep, -⟩ := built_fuzzer_lacks_operand_entities_only oneBoolean catalog
    .standard ⟨[.bool true]⟩ f (.assemble hf) (.emptySeedTable .int)
  obtain ⟨entry, hentry, type, htype, he, -⟩ := hsweep false hfail
  cases he
  exact ⟨catalog, f, .assemble hf, hrun, hfail, entry, hentry, htype.imp Eq.symm Eq.symm⟩

/-- Not every fuzzer that is put together without an error is free of them in sweeps. -/
theorem configuration_can_fail_after_construction :
    ¬ ∀ (ds : List Catalog.Descriptor) (config : Config) (catalog : Catalog)
      (constants : ConstantPool) (seedData : SeedData) (f : Fuzzer),
      Catalog.ofDescriptors ds = .ok catalog →
      (assemble config catalog constants seedData).value = .ok f →
        ∀ e : ConfigError,
          (∀ seed iteration, (f.runSeed seed iteration).value.2 ≠ .error (.config e)) ∧
          (∀ stop, (f.runUntil stop).value.2 ≠ .error (.config e)) ∧
          (∀ filterNulls, (f.sweepBinaries filterNulls).value ≠ .error (.config e)) ∧
          ∀ filterNulls, (f.sweepPairs filterNulls).value ≠ .error (.config e) := by
  intro hnever
  obtain ⟨catalog, f, hcatalog, hf, hfail⟩ := exists_failed_boolean_sweep
  obtain ⟨-, -, hsweep, -⟩ := hnever _ _ _ _ _ _ hcatalog hf (.emptySeedTable .int)
  exact hsweep false hfail

end Fuzzer

end QueryParity
