import QueryParity.Proofs.Fuzzer.Replay

/-!
# Sweeps check each case by itself

Cases over the same pair of types share an oracle, which is put together once. It agrees with a new
one for the same pair, so the outcome of a case does not depend on the cases before it, and a sweep
adds up what its cases give one by one.

The report of a failed case holds the case: its tree, checked over a new oracle for its root types,
fails in the same way. The seed in the report is of no use. It is zero in every report of a sweep,
so that running it grows the same tree whatever case has failed.
-/

namespace QueryParity

open Outcome

namespace Sweep

variable {f : Fuzzer} {s : Sweep} {filterNulls : Bool}

/-- A new oracle for a pair of types. -/
def newOracle (f : Fuzzer) (types : ValueType × ValueType) : Except ConfigError Oracle := do
  let d ← Dataset.crossJoin f.seedData [types.1, types.2]
  Oracle.ofDataset d f.oracle.lowering

/-- A case, with the given number, and a new oracle to check it. -/
def stageAlone (f : Fuzzer) (filterNulls : Bool) (iteration : Nat) (c : SweepCase) :
    Except ConfigError (Oracle × Case) := do
  let oracle ← newOracle f (c.lhs, c.rhs)
  let case ← c.toCase filterNulls iteration
  .ok (oracle, case)

/-- What a case gives by itself. -/
def outcomeAlone (f : Fuzzer) (filterNulls : Bool) (iteration : Nat) (c : SweepCase) :
    Except CheckError Verdict :=
  match stageAlone f filterNulls iteration c with
  | .error e => .error (.config e)
  | .ok (oracle, case) => (oracle.check case).value.2

/-- Every oracle in use agrees with a new one for the same types. -/
def Fresh (f : Fuzzer) (s : Sweep) : Prop :=
  ∀ types o, s.oracles.lookup types = some o → ∃ new, newOracle f types = .ok new ∧ o.Agree new

/-- At the start of a sweep no oracle is in use. -/
theorem fresh_empty (f : Fuzzer) : Fresh f .empty := by
  intro types o h
  cases h

/-- The first of the oracles in use is found for its types. -/
theorem lookup_cons (entry : (ValueType × ValueType) × Oracle) (other : ValueType × ValueType)
    (rest : List ((ValueType × ValueType) × Oracle)) :
    (entry :: rest).lookup other = if other = entry.1 then some entry.2 else rest.lookup other := by
  rw [List.lookup_cons]
  by_cases h : other = entry.1
  · simp [h]
  · rw [if_neg h, beq_eq_false_iff_ne.mpr h]

/-- The oracle that is put in is found for its types, and for other types the one that was there. -/
theorem lookup_setOracle (types other : ValueType × ValueType) (o : Oracle)
    (oracles : List ((ValueType × ValueType) × Oracle)) :
    (setOracle types o oracles).lookup other =
      if other = types then some o else oracles.lookup other := by
  induction oracles with
  | nil => exact lookup_cons (types, o) other []
  | cons entry rest ih =>
    rw [setOracle, lookup_cons]
    by_cases hentry : entry.1 = types
    · rw [if_pos hentry, lookup_cons, hentry]
      by_cases h : other = types
      · rw [if_pos h, if_pos h]
      · rw [if_neg h, if_neg h, if_neg h]
    · rw [if_neg hentry, lookup_cons, ih]
      by_cases h : other = entry.1
      · have hother : other ≠ types := fun htypes => hentry (h.symm.trans htypes)
        rw [if_pos h, if_pos h, if_neg hother]
      · rw [if_neg h, if_neg h]

/-- Oracles in use agree with new ones if the one that is put in does. -/
theorem Fresh.setOracle (h : Fresh f s) {types : ValueType × ValueType} {o new : Oracle}
    (hnew : newOracle f types = .ok new) (hagree : o.Agree new) (report : SweepReport) :
    Fresh f ⟨Sweep.setOracle types o s.oracles, report⟩ := by
  intro other found hfound
  rw [lookup_setOracle] at hfound
  by_cases hother : other = types
  · rw [if_pos hother] at hfound
    cases hfound
    exact ⟨new, hother ▸ hnew, hagree⟩
  · rw [if_neg hother] at hfound
    exact h other found hfound

/-- The oracle of a pair of types agrees with a new one, or neither can be put together. -/
theorem Fresh.oracleFor (h : Fresh f s) (types : ValueType × ValueType) :
    (∃ e, (s.oracleFor f types).value = .error e ∧ newOracle f types = .error e) ∨
      ∃ o new, (s.oracleFor f types).value = .ok o ∧ newOracle f types = .ok new ∧ o.Agree new := by
  cases hlookup : s.oracles.lookup types with
  | some o =>
    obtain ⟨new, hnew, hagree⟩ := h types o hlookup
    refine .inr ⟨o, new, ?_, hnew, hagree⟩
    rw [Sweep.oracleFor, hlookup]
    rfl
  | none =>
    have hvalue : (s.oracleFor f types).value = newOracle f types := by
      rw [Sweep.oracleFor, hlookup, newOracle]
      simp only [Logged.value_bind, Dataset.joined, Logged.value_ofExcept]
      cases Dataset.crossJoin f.seedData [types.1, types.2] <;> rfl
    cases hnew : newOracle f types with
    | error e => exact .inl ⟨e, hvalue.trans hnew, rfl⟩
    | ok new => exact .inr ⟨new, new, hvalue.trans hnew, rfl, .refl new⟩

/-- A case is checked by an oracle that agrees with a new one, or neither can be put together. -/
theorem Fresh.stage (h : Fresh f s) (filterNulls : Bool) (c : SweepCase) :
    (∃ e, (s.stage f filterNulls c).value = .error e ∧
      stageAlone f filterNulls s.report.cases.length c = .error e) ∨
    ∃ o new case, (s.stage f filterNulls c).value = .ok (o, case) ∧
      stageAlone f filterNulls s.report.cases.length c = .ok (new, case) ∧
      newOracle f (c.lhs, c.rhs) = .ok new ∧ o.Agree new := by
  rw [stageAlone, Sweep.stage, Logged.value_bind]
  obtain ⟨e, ho, hnew⟩ | ⟨o, new, ho, hnew, hagree⟩ := h.oracleFor (c.lhs, c.rhs)
  · rw [ho, hnew]
    exact .inl ⟨e, rfl, rfl⟩
  · rw [ho, hnew]
    simp only [ok_bind, Logged.value_pure]
    cases c.toCase filterNulls s.report.cases.length with
    | error e => exact .inl ⟨e, rfl, rfl⟩
    | ok case => exact .inr ⟨o, new, case, rfl, rfl, rfl, hagree⟩

/-- What a case gives over the oracles in use. -/
def outcomeShared (s : Sweep) (f : Fuzzer) (filterNulls : Bool) (c : SweepCase) :
    Except CheckError Verdict :=
  match (s.stage f filterNulls c).value with
  | .error e => .error (.config e)
  | .ok (oracle, case) => (oracle.check case).value.2

/-- A case gives over the oracles in use what it gives by itself. -/
theorem Fresh.outcomeShared_eq (h : Fresh f s) (filterNulls : Bool) (c : SweepCase) :
    s.outcomeShared f filterNulls c = outcomeAlone f filterNulls s.report.cases.length c := by
  rw [outcomeShared, outcomeAlone]
  obtain ⟨e, hstage, halone⟩ | ⟨o, new, case, hstage, halone, -, hagree⟩ := h.stage filterNulls c
  · rw [hstage, halone]
  · rw [hstage, halone]
    exact hagree.check_eq case

/-- Checking a case gives its outcome; a verdict is added to the totals, and the oracles in use
still agree with new ones. -/
theorem Fresh.check (h : Fresh f s) (filterNulls : Bool) (c : SweepCase) :
    (∃ e, s.outcomeShared f filterNulls c = .error e ∧
      (s.check f filterNulls c).value = .error e) ∨
    ∃ verdict next, s.outcomeShared f filterNulls c = .ok verdict ∧
      (s.check f filterNulls c).value = .ok next ∧ Fresh f next ∧
      next.report = ⟨s.report.cases ++ [c.label], s.report.tally.add verdict⟩ := by
  rw [outcomeShared, Sweep.check, Logged.value_bind]
  obtain ⟨e, hstage, -⟩ | ⟨o, new, case, hstage, -, hnew, hagree⟩ := h.stage filterNulls c
  · rw [hstage]
    exact .inl ⟨_, rfl, rfl⟩
  · -- The oracle in use has checked earlier cases, and now this one; it still agrees.
    have hafter := (o.agree_check case).trans hagree
    simp only [hstage, Logged.value_bind]
    cases hcheck : (o.check case).value with
    | mk after outcome =>
      rw [hcheck] at hafter
      cases outcome with
      | error e => exact .inl ⟨e, rfl, rfl⟩
      | ok verdict => exact .inr ⟨verdict, _, rfl, rfl, h.setOracle hnew hafter _, rfl⟩

/-- The outcomes of cases by themselves are added to the totals, up to the first failure. -/
def sumAlone (f : Fuzzer) (filterNulls : Bool) :
    SweepReport → List SweepCase → Except CheckError SweepReport
  | report, [] => .ok report
  | report, c :: cases => do
    let verdict ← outcomeAlone f filterNulls report.cases.length c
    sumAlone f filterNulls ⟨report.cases ++ [c.label], report.tally.add verdict⟩ cases

/-- The totals of a sweep add up what its cases give by themselves. -/
theorem Fresh.checkAll (h : Fresh f s) (filterNulls : Bool) (cases : List SweepCase) :
    (Sweep.checkAll f filterNulls s cases).value.map Sweep.report =
      sumAlone f filterNulls s.report cases := by
  induction cases generalizing s with
  | nil => rfl
  | cons c cases ih =>
    rw [Sweep.checkAll, Logged.value_bind, sumAlone, ← h.outcomeShared_eq]
    obtain ⟨e, houtcome, hcheck⟩ | ⟨verdict, next, houtcome, hcheck, hnext, hreport⟩ :=
      h.check filterNulls c
    · rw [houtcome, hcheck]
      rfl
    · rw [houtcome, hcheck, ok_bind, ← hreport]
      exact ih hnext

/-- A sum over cases that fails does so with the first failure of a case. -/
theorem exists_case_of_sumAlone {report : SweepReport} {cases : List SweepCase} {e : CheckError}
    (h : sumAlone f filterNulls report cases = .error e) :
    ∃ k c, cases[k]? = some c ∧
      outcomeAlone f filterNulls (report.cases.length + k) c = .error e ∧
      ∀ j c', j < k → cases[j]? = some c' →
        ∃ verdict, outcomeAlone f filterNulls (report.cases.length + j) c' = .ok verdict := by
  induction cases generalizing report with
  | nil => cases h
  | cons c cases ih =>
    obtain hfail | ⟨verdict, houtcome, h⟩ := bind_eq_error_iff.mp h
    · exact ⟨0, c, rfl, hfail, fun j c' hj => absurd hj (Nat.not_lt_zero j)⟩
    · have hlength : (report.cases ++ [c.label]).length = report.cases.length + 1 := by simp
      obtain ⟨k, c', hc', hfail, hearlier⟩ := ih h
      rw [hlength, Nat.add_assoc, Nat.add_comm 1] at hfail
      refine ⟨k + 1, c', hc', hfail, ?_⟩
      intro j found hj hfound
      cases j with
      | zero =>
        cases hfound
        exact ⟨verdict, houtcome⟩
      | succ j =>
        have hverdict := hearlier j found (Nat.lt_of_succ_lt_succ hj) hfound
        rwa [hlength, Nat.add_assoc, Nat.add_comm 1] at hverdict

/-- What a case that fails by itself puts into its report: the case without a seed, and its number.
A check of the tree, with this number, over a new oracle for the root types repeats the failure. -/
theorem report_of_outcomeAlone {iteration : Nat} {c : SweepCase} {e : CheckError}
    {r : FailureReport} (h : outcomeAlone f filterNulls iteration c = .error e)
    (hr : e.report? = some r) :
    r.seed = 0 ∧ r.iteration = iteration ∧ r.tree = c.guardedTree filterNulls ∧
      r.target = c.result ∧ r.rootTypes = [c.lhs, c.rhs] ∧ r.shape = c.shape ∧
      ∃ d o case, Dataset.crossJoin f.seedData r.rootTypes = .ok d ∧
        Oracle.ofDataset d f.oracle.lowering = .ok o ∧
        Case.ofTree r.tree r.target r.rootTypes r.shape = .ok case ∧
        (o.check { case with iteration := r.iteration }).value.2 = .error e := by
  rw [outcomeAlone] at h
  cases hstage : stageAlone f filterNulls iteration c with
  | error missing =>
    rw [hstage] at h
    cases h
    cases hr
  | ok staged =>
    rw [hstage] at h
    obtain ⟨o, hnew, hrest⟩ := bind_eq_ok_iff.mp hstage
    obtain ⟨case, hcase, hpair⟩ := bind_eq_ok_iff.mp hrest
    cases hpair
    obtain ⟨d, hd, ho⟩ := bind_eq_ok_iff.mp hnew
    rw [SweepCase.toCase] at hcase
    cases hbase : Case.ofTree (c.guardedTree filterNulls) c.result [c.lhs, c.rhs] c.shape with
    | error missing =>
      rw [hbase] at hcase
      cases hcase
    | ok base =>
      rw [hbase] at hcase
      cases hcase
      obtain ⟨kind, rfl⟩ := Oracle.report_of_check h hr
      obtain ⟨substitution, -, hparts⟩ := bind_eq_ok_iff.mp hbase
      cases hparts
      exact ⟨rfl, rfl, rfl, rfl, rfl, rfl, d, o, _, hd, ho, hbase, h⟩

end Sweep

namespace Fuzzer

open Sweep

/-- A sweep adds up what its cases give by themselves. -/
theorem value_sweep (f : Fuzzer) (filterNulls : Bool) (cases : List SweepCase)
    (completed : SweepReport → Event) :
    (f.sweep filterNulls cases completed).value =
      sumAlone f filterNulls ⟨[], .zero⟩ cases := by
  rw [sweep, Logged.value_bind, Logged.value_ofExcept]
  exact (fresh_empty f).checkAll filterNulls cases

/-- A sweep that fails with a report fails at the first case that fails by itself, and the report is
on this case: a check of its tree over a new oracle for its root types repeats the failure. The seed
does not: in every report it is zero, so that the tree it grows has nothing to do with the case. -/
theorem failed_sweep_repeats_by_tree (f : Fuzzer) (filterNulls : Bool) (cases : List SweepCase)
    (completed : SweepReport → Event) (e : CheckError) (r : FailureReport)
    (h : (f.sweep filterNulls cases completed).value = .error e) (hr : e.report? = some r) :
    r.seed = 0 ∧
      (f.generateCase r.seed r.iteration).value.map Case.tree =
        (f.generateCase 0 0).value.map Case.tree ∧
      (∃ c, cases[r.iteration]? = some c ∧ r.tree = c.guardedTree filterNulls ∧
        r.target = c.result ∧ r.rootTypes = [c.lhs, c.rhs] ∧ r.shape = c.shape) ∧
      (∀ j c, j < r.iteration → cases[j]? = some c →
        ∃ verdict, outcomeAlone f filterNulls j c = .ok verdict) ∧
      ∃ d o case, Dataset.crossJoin f.seedData r.rootTypes = .ok d ∧
        Oracle.ofDataset d f.oracle.lowering = .ok o ∧
        Case.ofTree r.tree r.target r.rootTypes r.shape = .ok case ∧
        (o.check { case with iteration := r.iteration }).value.2 = .error e := by
  rw [value_sweep] at h
  obtain ⟨k, c, hc, hfail, hearlier⟩ := exists_case_of_sumAlone h
  simp only [List.length_nil, Nat.zero_add] at hfail hearlier
  obtain ⟨hseed, rfl, htree, htarget, hroots, hshape, hrepeat⟩ := report_of_outcomeAlone hfail hr
  refine ⟨hseed, ?_, ⟨c, hc, htree, htarget, hroots, hshape⟩, hearlier, hrepeat⟩
  rw [hseed, value_generateCase, value_generateCase, caseFrom, caseFrom]
  cases Case.ofTree _ f.config.target f.config.rootTypes f.config.shape <;> rfl

/-- With loose comparisons the sweep over predicates fails at its fifth case. -/
theorem exists_failed_loose_sweep :
    ∃ f e r, loose = .ok f ∧ (f.sweepBinaries false).value = .error e ∧ e.report? = some r ∧
      r.seed = 0 ∧ r.iteration = 4 ∧ r.kind = .rowCountMismatch 6 3 := by
  have hsweep : (loose.toOption.bind fun f => failure? (f.sweepBinaries false).value) =
      some (0, 4, .rowCountMismatch 6 3) := by decide +kernel
  obtain ⟨f, hf, -⟩ := exists_loose
  rw [hf] at hsweep
  obtain ⟨e, r, herror, hr, hparts⟩ := exists_report_of_failure? hsweep
  exact ⟨f, e, r, hf, herror, hr, hparts⟩

/-- The fifth predicate is the comparison that is loosened, and its tree is in the report. -/
theorem failed_sweep_repeats_loose_comparison :
    ∃ f e r, loose = .ok f ∧ (f.sweepBinaries false).value = .error e ∧ e.report? = some r ∧
      r.seed = 0 ∧ r.iteration = 4 ∧ r.tree = .lessThan (.root 0 .int) (.root 1 .int) ∧
      (f.generateCase r.seed 4).value.map Case.tree =
        (f.generateCase 0 0).value.map Case.tree := by
  obtain ⟨f, e, r, hf, herror, hr, -, hiteration, -⟩ := exists_failed_loose_sweep
  obtain ⟨hseed, hgrown, ⟨c, hc, htree, -⟩, -⟩ :=
    failed_sweep_repeats_by_tree f false f.binaryCases .binarySweepCompleted e r herror hr
  have hcase : (loose.toOption.bind fun f => f.binaryCases[4]?.map (·.guardedTree false)) =
      some (.lessThan (.root 0 .int) (.root 1 .int)) := rfl
  rw [hiteration] at hc hgrown
  simp only [hf, Except.toOption, Option.bind_some, hc, Option.map_some,
    Option.some.injEq] at hcase
  exact ⟨f, e, r, hf, herror, hr, hseed, hiteration, htree.trans hcase, hgrown⟩

/-- Running the seed in the report of a failed sweep does not always repeat the failure. -/
theorem failed_sweep_is_not_repeated_by_seed :
    ¬ ∀ (f : Fuzzer) (filterNulls : Bool) (e : CheckError) (r : FailureReport),
      (f.sweepBinaries filterNulls).value = .error e ∨ (f.sweepPairs filterNulls).value = .error e →
      e.report? = some r →
        ∃ e' r', (f.runSeed r.seed r.iteration).value.2 = .error e' ∧ e'.report? = some r' ∧
          r'.tree = r.tree ∧ r'.kind = r.kind := by
  intro hrepeat
  obtain ⟨f, e, r, hf, herror, hr, hseed, hiteration, -⟩ := exists_failed_loose_sweep
  have hverdict : (loose.toOption.bind fun f => (f.runSeed 0 4).value.2.toOption) =
      some (.equivalent 0) := by decide +kernel
  obtain ⟨e', r', herror', -⟩ := hrepeat f false e r (.inl herror) hr
  rw [hseed, hiteration] at herror'
  simp only [hf, Except.toOption, Option.bind_some, herror'] at hverdict
  cases hverdict

end Fuzzer

end QueryParity
