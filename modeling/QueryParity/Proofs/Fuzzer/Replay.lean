import QueryParity.Proofs.Fuzzer.History

/-!
# Runs add up what their seeds give one by one

The seeds of a run are the words of a master generator, and an iteration takes nothing else from the
ones before it. So a run is a fold over the outcomes that its seeds have by themselves, whatever was
done with the fuzzer before. A run that is completed counts these outcomes; one that fails does so
with the failure of its last seed, which can be repeated at any time.
-/

namespace QueryParity

/-- What is found in a list with one more element is in the list, or it is this element. -/
theorem lt_or_eq_of_getElem?_concat {α : Type} {xs : List α} {x y : α} {k : Nat}
    (h : (xs ++ [x])[k]? = some y) : (k < xs.length ∧ xs[k]? = some y) ∨ k = xs.length ∧ x = y := by
  obtain hlt | hge := Nat.lt_or_ge k xs.length
  · rw [List.getElem?_append_left hlt] at h
    exact .inl ⟨hlt, h⟩
  · rw [List.getElem?_append_right hge] at h
    obtain ⟨hzero, hy⟩ := List.getElem?_eq_some_iff.mp h
    rw [List.length_singleton] at hzero
    refine .inr ⟨by omega, ?_⟩
    rwa [List.getElem_singleton] at hy

/-- Whether a verdict is that both paths returned the same rows. -/
def Verdict.isEquivalent : Verdict → Bool
  | .equivalent _ => true
  | .skipped _ => false

/-- The rows that both paths returned in common. -/
def Verdict.rows : Verdict → Nat
  | .equivalent rows => rows
  | .skipped _ => 0

/-- The rows of all verdicts together. -/
def Verdict.totalRows : List Verdict → Nat
  | [] => 0
  | verdict :: verdicts => verdict.rows + totalRows verdicts

/-- The rows of one more verdict come on top. -/
theorem Verdict.totalRows_concat (verdicts : List Verdict) (verdict : Verdict) :
    totalRows (verdicts ++ [verdict]) = totalRows verdicts + verdict.rows := by
  induction verdicts with
  | nil => simp [totalRows]
  | cons first verdicts ih =>
    rw [List.cons_append, totalRows, totalRows, ih, Nat.add_assoc]

/-- The totals of a run count one verdict per iteration. -/
structure RunReport.Counts (report : RunReport) (verdicts : List Verdict) : Prop where
  /-- One verdict per iteration. -/
  length_eq : verdicts.length = report.iterations
  /-- The verdicts that are equivalent. -/
  equivalent_eq : report.tally.equivalent = verdicts.countP Verdict.isEquivalent
  /-- The other verdicts. -/
  skipped_eq : report.tally.skipped = verdicts.countP fun verdict => !verdict.isEquivalent
  /-- The rows of the verdicts that are equivalent. -/
  rows_eq : report.tally.rowsCompared = Verdict.totalRows verdicts

namespace RunReport.Counts

variable {report : RunReport} {verdicts : List Verdict}

/-- The totals at the start of a run count nothing. -/
theorem zero : Counts ⟨0, .zero⟩ [] := ⟨rfl, rfl, rfl, rfl⟩

/-- Adding a verdict to the totals counts it. -/
theorem concat (h : report.Counts verdicts) (verdict : Verdict) :
    Counts ⟨report.iterations + 1, report.tally.add verdict⟩ (verdicts ++ [verdict]) := by
  refine ⟨?_, ?_, ?_, ?_⟩
  · simp [h.length_eq]
  · cases verdict <;> simp [Tally.add, h.equivalent_eq, Verdict.isEquivalent]
  · cases verdict <;> simp [Tally.add, h.skipped_eq, Verdict.isEquivalent]
  · cases verdict <;> simp [Tally.add, h.rows_eq, Verdict.totalRows_concat, Verdict.rows]

/-- Every iteration is equivalent or skipped. -/
theorem equivalent_add_skipped (h : report.Counts verdicts) :
    report.tally.equivalent + report.tally.skipped = report.iterations := by
  rw [h.equivalent_eq, h.skipped_eq, ← h.length_eq,
    List.length_eq_countP_add_countP Verdict.isEquivalent]
  simp

end RunReport.Counts

namespace Fuzzer

/-- A generator after a number of words of 64 bits. -/
def skip64 : Nat → ChaCha.Generator → ChaCha.Generator
  | 0, rng => rng
  | n + 1, rng => skip64 n (RandomSource.next64 rng).2

/-- One more word is skipped last as well as first. -/
theorem skip64_succ (n : Nat) (rng : ChaCha.Generator) :
    skip64 (n + 1) rng = (RandomSource.next64 (skip64 n rng)).2 := by
  induction n generalizing rng with
  | zero => rfl
  | succ n ih => exact ih (RandomSource.next64 rng).2

/-- The seed of an iteration: the word of its number from the master generator. -/
def seedOf (f : Fuzzer) (iteration : Nat) : UInt64 :=
  (RandomSource.next64 (skip64 iteration (ChaCha.ofSeed f.config.seed))).1

/-- What an iteration gives by itself. -/
def outcomeOf (f : Fuzzer) (iteration : Nat) : Except CheckError Verdict :=
  (f.runSeed (f.seedOf iteration) iteration).value.2

/-- The outcomes of the remaining iterations are added to the totals, up to the first failure or
until `stop`. -/
def sumUp (outcomes : Nat → Except CheckError Verdict) (stop : Nat → Bool) :
    (remaining : Nat) → RunReport → Except CheckError RunReport
  | 0, report => .ok report
  | remaining + 1, report =>
    if stop report.iterations then .ok report
    else do
      let verdict ← outcomes report.iterations
      sumUp outcomes stop remaining ⟨report.iterations + 1, report.tally.add verdict⟩

/-- The iterations of a run add up what each of them gives by itself on a fuzzer that agrees. -/
theorem Agree.runFrom_eq_sumUp {f g : Fuzzer} (h : g.Agree f) (stop : Nat → Bool) (remaining : Nat)
    (report : RunReport) :
    (runFrom stop remaining (skip64 report.iterations (ChaCha.ofSeed f.config.seed)) report
      g).value.2 = sumUp f.outcomeOf stop remaining report := by
  -- The master generator stands at the word of the next iteration, whatever the verdicts were.
  induction remaining generalizing g report with
  | zero => rfl
  | succ remaining ih =>
    have hseed : (RandomSource.next64 (skip64 report.iterations (ChaCha.ofSeed f.config.seed))).1 =
        f.seedOf report.iterations := rfl
    have houtcome := h.runSeed_eq (f.seedOf report.iterations) report.iterations
    have hagree := (g.agree_runSeed (f.seedOf report.iterations) report.iterations).trans h
    rw [value_runFrom_succ, sumUp]
    by_cases hstop : stop report.iterations = true
    · rw [if_pos hstop, if_pos hstop]
    · rw [if_neg hstop, if_neg hstop, hseed, ← skip64_succ, outcomeOf, ← houtcome]
      cases hrun : (g.runSeed (f.seedOf report.iterations) report.iterations).value with
      | mk last outcome =>
        rw [hrun] at hagree
        cases outcome with
        | error e => rfl
        | ok verdict => exact ih hagree ⟨report.iterations + 1, report.tally.add verdict⟩

/-- A run is the sum of what its iterations give by themselves, whatever was done before. -/
theorem runUntil_eq_sumUp (f : Fuzzer) (history : List Operation) (stop : Nat → Bool) :
    ((f.used history).runUntil stop).value.2 =
      sumUp f.outcomeOf stop f.config.iterations.toNat ⟨0, .zero⟩ := by
  have hagree := f.agree_used history
  rw [value_runUntil, hagree.config_eq]
  exact hagree.runFrom_eq_sumUp stop _ ⟨0, .zero⟩

variable {outcomes : Nat → Except CheckError Verdict} {stop : Nat → Bool} {remaining : Nat}
  {report last : RunReport} {e : CheckError}

/-- A sum that is completed counts the outcomes of all iterations up to its last one. It goes on as
long as it is not stopped. -/
theorem exists_verdicts_of_sumUp {verdicts : List Verdict} (hcounts : report.Counts verdicts)
    (hverdicts : ∀ k verdict, verdicts[k]? = some verdict → outcomes k = .ok verdict)
    (h : sumUp outcomes stop remaining report = .ok last) :
    last.iterations ≤ report.iterations + remaining ∧
      (last.iterations = report.iterations + remaining ∨ stop last.iterations = true) ∧
      ∃ verdicts, last.Counts verdicts ∧
        ∀ k verdict, verdicts[k]? = some verdict → outcomes k = .ok verdict := by
  induction remaining generalizing report verdicts with
  | zero =>
    cases h
    exact ⟨Nat.le_refl _, .inl rfl, verdicts, hcounts, hverdicts⟩
  | succ remaining ih =>
    rw [sumUp] at h
    by_cases hstop : stop report.iterations = true
    · rw [if_pos hstop] at h
      cases h
      exact ⟨Nat.le_add_right _ _, .inr hstop, verdicts, hcounts, hverdicts⟩
    · rw [if_neg hstop] at h
      obtain ⟨verdict, houtcome, h⟩ := Outcome.bind_eq_ok_iff.mp h
      have hall : ∀ k v, (verdicts ++ [verdict])[k]? = some v → outcomes k = .ok v := by
        intro k v hk
        obtain ⟨-, hk⟩ | ⟨rfl, rfl⟩ := lt_or_eq_of_getElem?_concat hk
        · exact hverdicts k v hk
        · rw [hcounts.length_eq]
          exact houtcome
      obtain ⟨hle, hend, hlast⟩ := ih (hcounts.concat verdict) hall h
      refine ⟨?_, ?_, hlast⟩
      · rwa [Nat.add_assoc, Nat.add_comm 1] at hle
      · rwa [Nat.add_assoc, Nat.add_comm 1] at hend

/-- A sum that fails does so with the first failure of an iteration. -/
theorem exists_iteration_of_sumUp (h : sumUp outcomes stop remaining report = .error e) :
    ∃ k, report.iterations ≤ k ∧ k < report.iterations + remaining ∧ outcomes k = .error e ∧
      ∀ j, report.iterations ≤ j → j < k → ∃ verdict, outcomes j = .ok verdict := by
  induction remaining generalizing report with
  | zero => cases h
  | succ remaining ih =>
    rw [sumUp] at h
    by_cases hstop : stop report.iterations = true
    · rw [if_pos hstop] at h
      cases h
    · rw [if_neg hstop] at h
      obtain hfail | ⟨verdict, houtcome, h⟩ := Outcome.bind_eq_error_iff.mp h
      · refine ⟨report.iterations, Nat.le_refl _, by omega, hfail, ?_⟩
        intro j hle hlt
        exact absurd hlt (Nat.not_lt_of_le hle)
      · obtain ⟨k, hle, hlt, hfail, hearlier⟩ := ih h
        refine ⟨k, Nat.le_of_succ_le hle, by simp only at hlt; omega, hfail, ?_⟩
        intro j hfrom hto
        obtain rfl | hlater := Nat.eq_or_lt_of_le hfrom
        · exact ⟨verdict, houtcome⟩
        · exact hearlier j hlater hto

/-- The report of a seed that fails names the seed and the iteration. -/
theorem origin_of_runSeed {f : Fuzzer} {seed : UInt64} {iteration : Nat} {r : FailureReport}
    (h : (f.runSeed seed iteration).value.2 = .error e) (hr : e.report? = some r) :
    r.seed = seed ∧ r.iteration = iteration := by
  rw [outcome_runSeed, value_generateCase, caseFrom] at h
  generalize Case.ofTree _ f.config.target f.config.rootTypes f.config.shape = grown at h
  cases grown with
  | error missing =>
    cases h
    cases hr
  | ok c =>
    obtain ⟨kind, rfl⟩ := Oracle.report_of_check h hr
    exact ⟨rfl, rfl⟩

/-- Whatever was done before, a run is the sum of what the seeds of the master generator give one by
one. If it is completed, its totals count their verdicts, of all iterations unless it is stopped. If
it fails, all seeds before the last one have verdicts, and the report names the last seed: at any
time, also after any other operations, that seed fails in the same way, with the same report. -/
theorem run_repeats_single_seeds (f : Fuzzer) (history : List Operation) (stop : Nat → Bool) :
    ((f.used history).runUntil stop).value.2 =
        sumUp f.outcomeOf stop f.config.iterations.toNat ⟨0, .zero⟩ ∧
      (∀ report, ((f.used history).runUntil stop).value.2 = .ok report →
        report.iterations ≤ f.config.iterations.toNat ∧
        ((∀ k, stop k = false) → report.iterations = f.config.iterations.toNat) ∧
        report.tally.equivalent + report.tally.skipped = report.iterations ∧
        ∃ verdicts, report.Counts verdicts ∧
          ∀ k verdict, verdicts[k]? = some verdict → f.outcomeOf k = .ok verdict) ∧
      ∀ e, ((f.used history).runUntil stop).value.2 = .error e →
        ∃ k, k < f.config.iterations.toNat ∧ f.outcomeOf k = .error e ∧
          (∀ j, j < k → ∃ verdict, f.outcomeOf j = .ok verdict) ∧
          ∀ r, e.report? = some r → r.seed = f.seedOf k ∧ r.iteration = k ∧
            ∀ later : List Operation,
              ((f.used later).runSeed r.seed r.iteration).value.2 = .error e := by
  rw [runUntil_eq_sumUp]
  refine ⟨rfl, ?_, ?_⟩
  · intro report hreport
    obtain ⟨hle, hend, verdicts, hcounts, hverdicts⟩ :=
      exists_verdicts_of_sumUp RunReport.Counts.zero (fun _ _ hnone => by cases hnone) hreport
    rw [Nat.zero_add] at hle hend
    refine ⟨hle, ?_, hcounts.equivalent_add_skipped, verdicts, hcounts, hverdicts⟩
    intro hnever
    obtain hall | hstop := hend
    · exact hall
    · rw [hnever] at hstop
      cases hstop
  · intro e he
    obtain ⟨k, -, hlt, hfail, hearlier⟩ := exists_iteration_of_sumUp he
    rw [Nat.zero_add] at hlt
    refine ⟨k, hlt, hfail, fun j => hearlier j (Nat.zero_le j), ?_⟩
    intro r hr
    obtain ⟨hseed, hiteration⟩ := origin_of_runSeed hfail hr
    refine ⟨hseed, hiteration, ?_⟩
    intro later
    rw [hseed, hiteration, (f.agree_used later).runSeed_eq]
    exact hfail

/-- Seed, number and kind of the failure that an outcome reports. -/
def failure? {α : Type} : Except CheckError α → Option (UInt64 × Nat × FailureKind)
  | .ok _ => none
  | .error e => e.report?.map fun r => (r.seed, r.iteration, r.kind)

/-- An outcome with a failure that is reported is an error with a report. -/
theorem exists_report_of_failure? {α : Type} {outcome : Except CheckError α} {seed : UInt64}
    {iteration : Nat} {kind : FailureKind} (h : failure? outcome = some (seed, iteration, kind)) :
    ∃ e r, outcome = .error e ∧ e.report? = some r ∧ r.seed = seed ∧ r.iteration = iteration ∧
      r.kind = kind := by
  cases outcome with
  | ok a => cases h
  | error e =>
    obtain ⟨r, hr, hparts⟩ := Option.map_eq_some_iff.mp h
    cases hparts
    exact ⟨e, r, rfl, hr, rfl, rfl, rfl⟩

/-- A rule that is wrong: it loosens comparisons. -/
def looseComparison : Rule where
  name := "loose-comparison"
  replace?
    | .binary .lessThan l r => some (.binary .lessThanOrEqual l r)
    | _ => none

/-- Settings for two trees of one operator over two integers. -/
def twoIntegers : Config :=
  { Config.standard with seed := 8, iterations := 2, maxDepth := 1, rootTypes := [.int, .int] }

/-- The standard fuzzer for these settings, with loose comparisons on the lowered path. -/
def loose : Except ConfigError Fuzzer :=
  (standard twoIntegers).value.map (·.withLowering ⟨[looseComparison]⟩)

/-- The fuzzer with loose comparisons can be built and has its settings. -/
theorem exists_loose : ∃ f, loose = .ok f ∧ f.config = twoIntegers := by
  have hvalid : twoIntegers.validate = .ok () := by decide
  obtain ⟨f, -, hf⟩ := exists_standard hvalid (by decide)
  obtain ⟨-, hconfig, -⟩ := ready_of_standard hf
  exact ⟨f.withLowering ⟨[looseComparison]⟩, by rw [loose, hf]; rfl, hconfig⟩

/-- With loose comparisons the second seed of a run fails, and it fails again after the run and a
sweep, or without the run. -/
theorem run_repeats_loose_comparison :
    ∃ f e r, loose = .ok f ∧ f.run.value.2 = .error e ∧ e.report? = some r ∧
      r.seed = 13627067276579008397 ∧ r.iteration = 1 ∧ r.kind = .rowCountMismatch 6 3 ∧
      ((f.used [.run fun _ => false, .sweepBinaries true]).runSeed
        13627067276579008397 1).value.2 = .error e ∧
      (f.runSeed 13627067276579008397 1).value.2 = .error e := by
  obtain ⟨f, hf, hconfig⟩ := exists_loose
  have hfirst : (loose.toOption.bind fun f => (f.outcomeOf 0).toOption) =
      some (.equivalent 4) := by decide +kernel
  have hsecond : (loose.toOption.bind fun f => failure? (f.outcomeOf 1)) =
      some (13627067276579008397, 1, .rowCountMismatch 6 3) := by decide +kernel
  rw [hf] at hfirst hsecond
  obtain ⟨e, r, hone, hr, hseed, hiteration, hkind⟩ := exists_report_of_failure? hsecond
  obtain ⟨hrun, -, hfailure⟩ := run_repeats_single_seeds f [] fun _ => false
  cases hzero : f.outcomeOf 0 with
  | error e =>
    simp only [Except.toOption, Option.bind_some, hzero] at hfirst
    cases hfirst
  | ok verdict =>
    have hlimit : f.config.iterations.toNat = 2 := by
      rw [hconfig]
      rfl
    have herror : f.run.value.2 = .error e := by
      rw [hlimit] at hrun
      exact hrun.trans (by simp [sumUp, hzero, hone])
    obtain ⟨k, -, -, -, hrepeat⟩ := hfailure e herror
    obtain ⟨-, -, hlater⟩ := hrepeat r hr
    rw [hseed, hiteration] at hlater
    exact ⟨f, e, r, hf, herror, hr, hseed, hiteration, hkind, hlater _, hlater []⟩

end Fuzzer

end QueryParity
