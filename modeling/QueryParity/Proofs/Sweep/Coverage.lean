import Mathlib.Data.List.Induction
import QueryParity.Proofs.Sweep

/-!
# Sweeps check every operator once

The catalog is listed by result type, and operators with the same result type in the order of their
registration. A sweep over pairs goes through the operators with two operands in this order, and
for each of them through those with one operand that accept its result, in the same order. A sweep
that is completed has one label per case, and its totals count one verdict per case: the verdict
that the case has over a new oracle, although cases share their oracles.
-/

namespace QueryParity

open Outcome

namespace Catalog

variable {α : Type} {result : α → ValueType} {entries : List α}

/-- A registered operator comes before another one if its result type does, or if the result types
are the same and it was registered before. -/
def Precedes (result : α → ValueType) (e e' : α × Nat) : Prop :=
  ValueType.all.idxOf (result e.1) < ValueType.all.idxOf (result e'.1) ∨
    result e.1 = result e'.1 ∧ e.2 < e'.2

/-- Operators, numbered in the order of their registration, listed by result type. -/
def byResult (result : α → ValueType) (entries : List α) : List (α × Nat) :=
  ValueType.all.flatMap fun type => entries.zipIdx.filter fun e => result e.1 = type

/-- Every operator is listed. -/
theorem mem_byResult {e : α × Nat} : e ∈ byResult result entries ↔ e ∈ entries.zipIdx := by
  simp [byResult]

/-- Numbered operators are chosen as the operators are. -/
theorem map_fst_filter (p : α → Bool) (numbered : List (α × Nat)) :
    (numbered.filter fun e => p e.1).map Prod.fst = (numbered.map Prod.fst).filter p :=
  List.filter_map.symm

/-- Without their numbers, operators are chosen in the order of their registration. -/
theorem map_fst_filter_zipIdx (p : α → Bool) :
    (entries.zipIdx.filter fun e => p e.1).map Prod.fst = entries.filter p := by
  rw [map_fst_filter, List.zipIdx_map_fst]

/-- Operators that are chosen stay in the order of their registration. -/
theorem pairwise_filter_zipIdx (p : α × Nat → Bool) :
    (entries.zipIdx.filter p).Pairwise fun e e' => e.2 < e'.2 := by
  refine List.Pairwise.filter p (List.pairwise_map.mp ?_)
  rw [List.zipIdx_map_snd]
  exact List.pairwise_lt_range' 1

/-- No operator is listed twice, and every one comes after those that precede it. -/
theorem pairwise_byResult : (byResult result entries).Pairwise (Precedes result) := by
  rw [byResult, List.pairwise_flatMap]
  constructor
  · intro type _
    refine (pairwise_filter_zipIdx _).imp_of_mem fun he he' hlt => .inr ⟨?_, hlt⟩
    rw [of_decide_eq_true (List.mem_filter.mp he).2, of_decide_eq_true (List.mem_filter.mp he').2]
  · have htypes : ValueType.all.Pairwise fun type type' =>
        ValueType.all.idxOf type < ValueType.all.idxOf type' := by decide
    refine htypes.imp fun hlt e he e' he' => .inl ?_
    rwa [of_decide_eq_true (List.mem_filter.mp he).2, of_decide_eq_true (List.mem_filter.mp he').2]

/-- The operators with two operands, each with every operator with one operand that accepts its
result. -/
def compositions (c : Catalog) : List ((BinaryEntry × Nat) × (UnaryEntry × Nat)) :=
  (byResult BinaryEntry.result c.binaries).flatMap fun e =>
    ((byResult UnaryEntry.result c.unaries).filter fun u => u.1.input = e.1.result).map (e, ·)

/-- Operators are composed exactly if the second one accepts the result of the first one. -/
theorem mem_compositions {c : Catalog} {p : (BinaryEntry × Nat) × (UnaryEntry × Nat)} :
    p ∈ c.compositions ↔ p.1 ∈ c.binaries.zipIdx ∧ p.2 ∈ c.unaries.zipIdx ∧
      p.2.1.input = p.1.1.result := by
  obtain ⟨e, u⟩ := p
  simp [compositions, mem_byResult]

/-- Compositions are listed by the first operator, and by the second one where it is the same. -/
theorem pairwise_compositions (c : Catalog) :
    c.compositions.Pairwise
      (Prod.Lex (Precedes BinaryEntry.result) (Precedes UnaryEntry.result)) := by
  rw [compositions, List.pairwise_flatMap]
  constructor
  · intro e _
    exact List.pairwise_map.mpr ((pairwise_byResult.filter _).imp fun h => .right e h)
  · refine pairwise_byResult.imp fun h p hp p' hp' => ?_
    obtain ⟨u, -, rfl⟩ := List.mem_map.mp hp
    obtain ⟨u', -, rfl⟩ := List.mem_map.mp hp'
    exact .left u u' h

/-- Without their numbers, the operators are listed type by type. -/
theorem map_fst_byResult : (byResult result entries).map Prod.fst =
    ValueType.all.flatMap fun type => entries.filter fun e => result e = type := by
  rw [byResult, List.map_flatMap]
  exact List.flatMap_congr fun type _ => map_fst_filter_zipIdx fun e => result e = type

/-- The operators that accept a type, listed without their numbers. -/
theorem unariesAccepting_eq (c : Catalog) (type : ValueType) :
    c.unariesAccepting type =
      ((byResult UnaryEntry.result c.unaries).filter fun u => u.1.input = type).map Prod.fst := by
  rw [map_fst_filter fun u : UnaryEntry => u.input = type, map_fst_byResult]
  rfl

end Catalog

namespace Fuzzer

/-- The cases of a sweep over pairs are the compositions. -/
theorem pairCases_eq (f : Fuzzer) :
    f.pairCases = f.catalog.compositions.map fun p => .ofPair p.1.1 p.2.1 := by
  let after (e : Catalog.BinaryEntry) : List SweepCase :=
    (f.catalog.unariesAccepting e.result).map (.ofPair e)
  have hafter : ∀ e : Catalog.BinaryEntry × Nat,
      (((Catalog.byResult Catalog.UnaryEntry.result f.catalog.unaries).filter fun u =>
        u.1.input = e.1.result).map (e, ·)).map (fun p => .ofPair p.1.1 p.2.1) = after e.1 := by
    intro e
    simp only [after, Catalog.unariesAccepting_eq, List.map_map, Function.comp_def]
  calc f.pairCases
      = ValueType.all.flatMap fun type => (f.catalog.binariesOf type).flatMap after := by
        refine List.flatMap_congr fun type _ => List.flatMap_congr fun e he => ?_
        have hresult : e.result = type := of_decide_eq_true (List.mem_filter.mp he).2
        simp only [after, hresult]
    _ = ((Catalog.byResult Catalog.BinaryEntry.result f.catalog.binaries).map Prod.fst).flatMap
          after := by
        rw [Catalog.map_fst_byResult, List.flatMap_assoc]
        rfl
    _ = f.catalog.compositions.map fun p => .ofPair p.1.1 p.2.1 := by
        rw [List.flatMap_map, Catalog.compositions, List.map_flatMap]
        exact List.flatMap_congr fun e _ => (hafter e).symm

end Fuzzer

namespace Sweep

variable {f : Fuzzer} {filterNulls : Bool} {s next : Sweep} {cases : List SweepCase}
  {c : SweepCase} {verdicts : List Verdict}

/-- One more case is checked after the others. -/
theorem checkAll_concat (f : Fuzzer) (filterNulls : Bool) (s : Sweep) (cases : List SweepCase)
    (c : SweepCase) :
    (checkAll f filterNulls s (cases ++ [c])).value =
      (checkAll f filterNulls s cases).value >>= fun s => (s.check f filterNulls c).value := by
  induction cases generalizing s with
  | nil =>
    rw [List.nil_append, checkAll, checkAll, Logged.value_bind, Logged.value_pure, ok_bind]
    cases (s.check f filterNulls c).value <;> rfl
  | cons first cases ih =>
    rw [List.cons_append, checkAll, checkAll, Logged.value_bind, Logged.value_bind]
    cases (s.check f filterNulls first).value with
    | error e => rfl
    | ok s => exact ih s

/-- A sweep over cases, from the beginning, that gave some verdicts. -/
structure Accounts (f : Fuzzer) (filterNulls : Bool) (cases : List SweepCase) (s : Sweep)
    (verdicts : List Verdict) : Prop where
  /-- All cases were checked. -/
  run : (checkAll f filterNulls .empty cases).value = .ok s
  /-- The oracles in use agree with new ones. -/
  fresh : Fresh f s
  /-- One label per case. -/
  labels : s.report.cases = cases.map SweepCase.label
  /-- The totals count one verdict per case. -/
  counts : RunReport.Counts ⟨s.report.cases.length, s.report.tally⟩ verdicts
  /-- The verdict of a case is what it gave after the cases before it, and what it gives over a new
  oracle. -/
  verdict : ∀ k c, cases[k]? = some c → ∃ before verdict, verdicts[k]? = some verdict ∧
    (checkAll f filterNulls .empty (cases.take k)).value = .ok before ∧
    before.outcomeShared f filterNulls c = .ok verdict ∧
    outcomeAlone f filterNulls k c = .ok verdict

namespace Accounts

/-- At the start of a sweep there is no verdict. -/
theorem nil : Accounts f filterNulls [] .empty [] where
  run := rfl
  fresh := fresh_empty f
  labels := rfl
  counts := .zero
  verdict := nofun

/-- There is a verdict for every case. -/
theorem length_eq (h : Accounts f filterNulls cases s verdicts) :
    verdicts.length = cases.length := by
  rw [h.counts.length_eq, h.labels, List.length_map]

/-- One more case that is checked gives one more verdict. -/
theorem concat (h : Accounts f filterNulls cases s verdicts)
    (hcheck : (s.check f filterNulls c).value = .ok next) :
    ∃ verdict, Accounts f filterNulls (cases ++ [c]) next (verdicts ++ [verdict]) := by
  obtain ⟨e, -, hfail⟩ | ⟨verdict, after, hshared, hafter, hfresh, hreport⟩ :=
    h.fresh.check filterNulls c
  · rw [hcheck] at hfail
    cases hfail
  · rw [hcheck] at hafter
    cases hafter
    have hnumber : s.report.cases.length = cases.length := by rw [h.labels, List.length_map]
    have halone := h.fresh.outcomeShared_eq filterNulls c
    rw [hnumber, hshared] at halone
    refine ⟨verdict, ?_, hfresh, ?_, ?_, ?_⟩
    · rw [checkAll_concat, h.run, ok_bind, hcheck]
    · rw [hreport, h.labels, List.map_append, List.map_singleton]
    · rw [hreport, List.length_append]
      exact h.counts.concat verdict
    · intro k found hk
      obtain ⟨hlt, hk⟩ | ⟨rfl, rfl⟩ := lt_or_eq_of_getElem?_concat hk
      · rw [List.take_append_of_le_length (Nat.le_of_lt hlt),
          List.getElem?_append_left (h.length_eq ▸ hlt)]
        exact h.verdict k found hk
      · refine ⟨s, verdict, ?_, ?_, hshared, halone.symm⟩
        · rw [← h.length_eq, List.getElem?_concat_length]
        · rw [List.take_left, h.run]

end Accounts

/-- A sweep that is completed gave a verdict for every case. -/
theorem exists_accounts (h : (checkAll f filterNulls .empty cases).value = .ok s) :
    ∃ verdicts, Accounts f filterNulls cases s verdicts := by
  induction cases using List.reverseRecOn generalizing s with
  | nil =>
    cases h
    exact ⟨[], .nil⟩
  | append_singleton cases c ih =>
    rw [checkAll_concat] at h
    obtain ⟨before, hbefore, hcheck⟩ := bind_eq_ok_iff.mp h
    obtain ⟨verdicts, haccounts⟩ := ih hbefore
    obtain ⟨verdict, hnext⟩ := haccounts.concat hcheck
    exact ⟨_, hnext⟩

end Sweep

namespace Fuzzer

open Sweep

/-- A sweep that is completed gave the verdicts that its report counts. -/
theorem exists_accounts_of_sweep {f : Fuzzer} {filterNulls : Bool} {cases : List SweepCase}
    {completed : SweepReport → Event} {report : SweepReport}
    (h : (f.sweep filterNulls cases completed).value = .ok report) :
    ∃ s verdicts, s.report = report ∧ Accounts f filterNulls cases s verdicts := by
  rw [sweep, Logged.value_bind, Logged.value_ofExcept] at h
  cases hrun : (checkAll f filterNulls .empty cases).value with
  | error e =>
    rw [hrun] at h
    cases h
  | ok s =>
    rw [hrun] at h
    cases h
    obtain ⟨verdicts, haccounts⟩ := exists_accounts hrun
    exact ⟨s, verdicts, rfl, haccounts⟩

/-- A completed sweep over predicates has one label for every predicate with two operands, in the
order of registration. A completed sweep over pairs has one for every operator with two operands and
every operator with one operand that accepts its result; they are in the order of the first
operator, and then of the second one: by result type, and by registration if the types are the same.
Every case is equivalent or skipped. It has the verdict, with the number of rows, that it has over a
new oracle for its types, although it is checked by one that earlier cases were checked by. -/
theorem completed_sweeps_check_every_operator (f : Fuzzer) (filterNulls : Bool) :
    (∀ report, (f.sweepBinaries filterNulls).value = .ok report →
      ∃ entries : List (Catalog.BinaryEntry × Nat),
        (∀ e, e ∈ entries ↔ e ∈ f.catalog.binaries.zipIdx ∧ e.1.result = .bool) ∧
        entries.Pairwise (fun e e' => e.2 < e'.2) ∧
        entries.map Prod.fst = f.catalog.binariesOf .bool ∧
        report.cases = entries.map (fun e => e.1.label) ∧
        report.tally.equivalent + report.tally.skipped = report.cases.length ∧
        ∃ s verdicts, s.report = report ∧
          Accounts f filterNulls (entries.map fun e => .ofBinary e.1) s verdicts) ∧
    ∀ report, (f.sweepPairs filterNulls).value = .ok report →
      ∃ pairs : List ((Catalog.BinaryEntry × Nat) × (Catalog.UnaryEntry × Nat)),
        (∀ p, p ∈ pairs ↔ p.1 ∈ f.catalog.binaries.zipIdx ∧ p.2 ∈ f.catalog.unaries.zipIdx ∧
          p.2.1.input = p.1.1.result) ∧
        pairs.Pairwise (Prod.Lex (Catalog.Precedes Catalog.BinaryEntry.result)
          (Catalog.Precedes Catalog.UnaryEntry.result)) ∧
        report.cases = pairs.map (fun p => p.1.1.label ++ " then " ++ p.2.1.label) ∧
        report.tally.equivalent + report.tally.skipped = report.cases.length ∧
        ∃ s verdicts, s.report = report ∧
          Accounts f filterNulls (pairs.map fun p => .ofPair p.1.1 p.2.1) s verdicts := by
  constructor
  · intro report h
    obtain ⟨s, verdicts, rfl, haccounts⟩ := exists_accounts_of_sweep h
    have hentries : (f.catalog.binaries.zipIdx.filter fun e => e.1.result = .bool).map Prod.fst =
        f.catalog.binariesOf .bool :=
      Catalog.map_fst_filter_zipIdx fun e : Catalog.BinaryEntry => e.result = .bool
    have hcases : f.binaryCases = (f.catalog.binaries.zipIdx.filter fun e =>
        e.1.result = .bool).map fun e => .ofBinary e.1 := by
      rw [binaryCases, ← hentries, List.map_map]
      rfl
    rw [hcases] at haccounts
    refine ⟨_, fun e => ?_, Catalog.pairwise_filter_zipIdx _, hentries, ?_,
      haccounts.counts.equivalent_add_skipped, s, verdicts, rfl, haccounts⟩
    · rw [List.mem_filter, decide_eq_true_iff]
    · rw [haccounts.labels, List.map_map]
      rfl
  · intro report h
    obtain ⟨s, verdicts, rfl, haccounts⟩ := exists_accounts_of_sweep h
    rw [pairCases_eq] at haccounts
    refine ⟨_, fun p => Catalog.mem_compositions, Catalog.pairwise_compositions _, ?_,
      haccounts.counts.equivalent_add_skipped, s, verdicts, rfl, haccounts⟩
    rw [haccounts.labels, List.map_map]
    rfl

/-- A fuzzer with quotients, comparisons and their tests, over integers among which are zero and
null. -/
def quotients : Except ConfigError Fuzzer := do
  let catalog ← Catalog.ofDescriptors
    [.binary "Divide" .int .int .int .divide, .binary "LessThan" .int .int .bool .lessThan,
      .binary "Equal" .int .int .bool .equal, .unary "IsNull" .int .bool .isNull,
      .unary "Negate" .int .int .negate, .unary "Not" .bool .bool .not]
  (assemble twoIntegers catalog .standard ⟨[.int 0, .int 2, .null .int]⟩).value

/-- Both sweeps of this fuzzer are completed. Their cases share one oracle, also after the
quotients, which are skipped since they divide by zero. The negation of the quotient comes before
its null test, although that was registered first. -/
theorem completed_sweeps_of_quotients :
    ∃ f report report', quotients = .ok f ∧
      (f.sweepBinaries true).value = .ok report ∧ (f.sweepPairs false).value = .ok report' ∧
      report = ⟨["LessThan(int, int)", "Equal(int, int)"], ⟨2, 0, 3⟩⟩ ∧
      report' = ⟨["Divide(int, int) then Negate(int)", "Divide(int, int) then IsNull(int)",
        "LessThan(int, int) then Not(bool)", "Equal(int, int) then Not(bool)"], ⟨2, 2, 14⟩⟩ ∧
      report.cases = (f.catalog.binariesOf .bool).map Catalog.BinaryEntry.label ∧
      ∃ cases s verdicts, s.report = report' ∧ cases.length = 4 ∧
        Accounts f false cases s verdicts := by
  have hbinaries : (quotients.toOption.bind fun f => (f.sweepBinaries true).value.toOption) =
      some ⟨["LessThan(int, int)", "Equal(int, int)"], ⟨2, 0, 3⟩⟩ := by decide +kernel
  have hpairs : (quotients.toOption.bind fun f => (f.sweepPairs false).value.toOption) =
      some ⟨["Divide(int, int) then Negate(int)", "Divide(int, int) then IsNull(int)",
        "LessThan(int, int) then Not(bool)", "Equal(int, int) then Not(bool)"], ⟨2, 2, 14⟩⟩ := by
    decide +kernel
  obtain ⟨f, hf, hreport⟩ := Option.bind_eq_some_iff.mp hbinaries
  obtain ⟨f', hf', hreport'⟩ := Option.bind_eq_some_iff.mp hpairs
  cases hf.symm.trans hf'
  rw [toOption_eq_some_iff] at hf hreport hreport'
  obtain ⟨hsweep, -⟩ := completed_sweeps_check_every_operator f true
  obtain ⟨-, hsweep'⟩ := completed_sweeps_check_every_operator f false
  obtain ⟨entries, -, -, hentries, hlabels, -⟩ := hsweep _ hreport
  obtain ⟨pairs, -, -, hlabels', -, s, verdicts, hs, haccounts⟩ := hsweep' _ hreport'
  refine ⟨f, _, _, hf, hreport, hreport', rfl, rfl, ?_, _, s, verdicts, hs, ?_, haccounts⟩
  · rw [hlabels, ← hentries, List.map_map]
    rfl
  · rw [List.length_map]
    have hlength := congrArg List.length hlabels'
    rw [List.length_map] at hlength
    exact hlength.symm

end Fuzzer

end QueryParity
