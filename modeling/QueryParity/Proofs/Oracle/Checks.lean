import QueryParity.Proofs.Expr.Nesting
import QueryParity.Proofs.Oracle.Judgement
import QueryParity.Proofs.Session.Queries

/-!
# Checks judge what the interpreter returns

The outcome of a check is the judgement on the results of its two paths. Over a dataset that the
session of an oracle holds, the result of the lowered path is that of the interpreter as well, for
every lowering whose bound trees are over the columns of the dataset. So a check accepts a case
exactly if the interpreter cannot tell the lowered tree from the tree itself, right or wrong as the
rules may be, and whatever was checked before. Of a case that is not accepted an error is given back
if both trees are printable, and nothing otherwise.

A fault on one path only is a divergence if it is tolerated. One that is not tolerated is unexpected
even then.
-/

namespace QueryParity

open Outcome

namespace Oracle

variable {o : Oracle} {c : Case} {d : Dataset} {l : Lowering}

/-- The results of the two paths of a check. -/
def results (o : Oracle) (c : Case) : Except SubstitutionError PathResults := do
  let (lowered, reference) ← queries c (o.lowering.lower c.tree).value
  .ok ⟨(o.session.run lowered).value.2, o.dataset.query reference⟩

/-- The outcome of a check is the judgement on the results of the two paths, or the error of a
placeholder that cannot be replaced. -/
theorem value_check (o : Oracle) (c : Case) :
    (o.check c).value.2 =
      match o.results c with
      | .ok r => r.judge (c.report (o.lowering.lower c.tree).value)
      | .error e => .error (.substitution e) := by
  rw [check, Logged.value_bind, results]
  cases queries c (o.lowering.lower c.tree).value with
  | error e => rfl
  | ok pair =>
    simp only [Logged.value_bind, Logged.value_ofExcept, ok_bind]
    rfl

/-- The outcome of a check whose placeholders are replaced. -/
theorem check_eq_judge {r : PathResults} (h : o.results c = .ok r) :
    (o.check c).value.2 = r.judge (c.report (o.lowering.lower c.tree).value) := by
  rw [value_check, h]

/-- A check fails because a placeholder cannot be replaced, or with a report on its case. -/
theorem check_failure {e : CheckError} (h : (o.check c).value.2 = .error e) :
    (∃ missing, e = .substitution missing) ∨
      ∃ kind, e = .divergence (c.report (o.lowering.lower c.tree).value kind) ∨
        e = .unexpected (c.report (o.lowering.lower c.tree).value kind) := by
  rw [value_check] at h
  cases hresults : o.results c with
  | error missing =>
    rw [hresults] at h
    cases h
    exact .inl ⟨missing, rfl⟩
  | ok r =>
    rw [hresults] at h
    exact .inr (PathResults.exists_report_of_judge h)

/-- The report of a failed check is on the case that was checked. -/
theorem report_of_check {e : CheckError} {r : FailureReport} (h : (o.check c).value.2 = .error e)
    (hr : e.report? = some r) : ∃ kind, r = c.report (o.lowering.lower c.tree).value kind := by
  obtain ⟨missing, rfl⟩ | ⟨kind, rfl | rfl⟩ := check_failure h <;> cases hr
  · exact ⟨kind, rfl⟩
  · exact ⟨kind, rfl⟩

/-- No check fails because of the configuration. -/
theorem check_ne_config (o : Oracle) (c : Case) (e : ConfigError) :
    (o.check c).value.2 ≠ .error (.config e) := by
  intro h
  obtain ⟨missing, h⟩ | ⟨kind, h | h⟩ := check_failure h <;> cases h

/-- A check changes nothing but the session, which runs one query at most. -/
theorem check_oracle (o : Oracle) (c : Case) :
    (o.check c).value.1 = o ∨
      ∃ query, (o.check c).value.1 = { o with session := (o.session.run query).value.1 } := by
  rw [check, Logged.value_bind]
  split
  · exact .inl rfl
  · exact .inr ⟨_, rfl⟩

/-- A check leaves the dataset. -/
theorem dataset_check (o : Oracle) (c : Case) : (o.check c).value.1.dataset = o.dataset := by
  obtain h | ⟨query, h⟩ := check_oracle o c <;> rw [h]

/-- An oracle over a dataset, which its session holds, with the given lowering. -/
structure Over (o : Oracle) (d : Dataset) (l : Lowering) : Prop where
  /-- The rows of the reference path. -/
  dataset_eq : o.dataset = d
  /-- The columns of the lowered path. -/
  holds : o.session.Holds d
  /-- How trees are lowered. -/
  lowering_eq : o.lowering = l

/-- There is an oracle with any lowering over every dataset that conforms. -/
theorem exists_over (h : d.Conforms) (l : Lowering) :
    ∃ o, ofDataset d l = .ok o ∧ o.Over d l := by
  obtain ⟨s, hload, hholds, -⟩ := Session.exists_load h
  refine ⟨⟨s, d, l⟩, ?_, ⟨rfl, hholds, rfl⟩⟩
  rw [ofDataset, hload, ok_bind]

/-- After a check, an oracle is still over its dataset. -/
theorem Over.check (h : o.Over d l) (c : Case) : (o.check c).value.1.Over d l := by
  obtain hsame | ⟨query, hrun⟩ := check_oracle o c
  · rwa [hsame]
  · rw [hrun]
    exact ⟨h.dataset_eq, h.holds.run query, h.lowering_eq⟩

/-- The oracle after earlier cases were checked by it. -/
def after (o : Oracle) (earlier : List Case) : Oracle :=
  earlier.foldl (fun o c => (o.check c).value.1) o

/-- After any checks, an oracle is still over its dataset. -/
theorem Over.after (h : o.Over d l) (earlier : List Case) : (o.after earlier).Over d l := by
  induction earlier generalizing o with
  | nil => exact h
  | cons c earlier ih => exact ih (h.check c)

/-- If the bound lowered tree is over the columns of the dataset, the results of a check are those
of the interpreter for the two bound trees. -/
theorem Over.results_eq (h : o.Over d l) {lowered reference : Expr}
    (hlowered : c.substitution.replaceRoots (l.lower c.tree).value = .ok lowered)
    (hreference : c.substitution.replaceRoots c.tree = .ok reference)
    (hfits : lowered.Fits d.schema) :
    o.results c = .ok ⟨d.query ⟨lowered, c.shape⟩, d.query ⟨reference, c.shape⟩⟩ := by
  rw [results, h.lowering_eq, h.dataset_eq, queries, hlowered, hreference]
  simp only [ok_bind]
  rw [h.holds.run_eq_query hfits]

/-- Whether the report of a failed check can be printed. -/
def reportable (l : Lowering) (c : Case) : Bool :=
  c.tree.isPrintable && (l.lower c.tree).value.isPrintable

/-- What a check gives back tells apart what the interpreter returns for the bound lowered tree and
for the bound tree. -/
theorem Over.discerns (h : o.Over d l) {lowered reference : Expr}
    (hlowered : c.substitution.replaceRoots (l.lower c.tree).value = .ok lowered)
    (hreference : c.substitution.replaceRoots c.tree = .ok reference)
    (hfits : lowered.Fits d.schema) :
    PathResults.Discerns ⟨d.query ⟨lowered, c.shape⟩, d.query ⟨reference, c.shape⟩⟩
      (c.report (l.lower c.tree).value) (reportable l c) (o.verdict? c) := by
  rw [verdict?, check_eq_judge (h.results_eq hlowered hreference hfits), h.lowering_eq]
  exact PathResults.discerns_judge _ fun kind => rfl

/-- Over every dataset and with every lowering, whatever was checked before, a check tells apart
what the interpreter returns for the bound lowered tree and for the bound tree, provided that the
bound lowered tree is over the columns of the dataset. Where the two differ, it gives an error back
exactly if the tree and the lowered tree can be printed for the report. -/
theorem check_discerns_interpreted_results (d : Dataset) (hd : d.Built) (l : Lowering) (c : Case)
    (lowered reference : Expr)
    (hlowered : c.substitution.replaceRoots (l.lower c.tree).value = .ok lowered)
    (hreference : c.substitution.replaceRoots c.tree = .ok reference)
    (hfits : lowered.Fits d.schema) :
    ∃ o, ofDataset d l = .ok o ∧ ∀ earlier : List Case,
      PathResults.Discerns ⟨d.query ⟨lowered, c.shape⟩, d.query ⟨reference, c.shape⟩⟩
        (c.report (l.lower c.tree).value) (reportable l c) ((o.after earlier).verdict? c) := by
  obtain ⟨o, ho, hover⟩ := exists_over hd.conforms l
  exact ⟨o, ho, fun earlier => (hover.after earlier).discerns hlowered hreference hfits⟩

/-- A rule that is wrong: it drops negations. -/
def dropNegation : Rule where
  name := "drop-negation"
  replace?
    | .unary .not a => some a
    | _ => none

/-- A null is its own negation, so the second row is the first that differs when the negation is
dropped, also after the case was checked before. Both trees are printable, so this is reported. -/
theorem check_reports_second_row :
    let c : Case := ⟨0, 0, .bool, 1, [.bool], .not (.root 0 .bool), ⟨#[some (.field 0 .bool)]⟩,
      .project⟩
    ∃ o, ofDataset ⟨[.bool], [⟨[0], [.null .bool]⟩, ⟨[1], [.bool true]⟩]⟩ ⟨[dropNegation]⟩ = .ok o ∧
      (o.after [c]).verdict? c =
        some (.error (.divergence (c.report (.root 0 .bool)
          (.rowMismatch ⟨[1], .bool true⟩ ⟨[1], .bool false⟩)))) := by
  intro c
  have hbuilt : Dataset.ofRows [.bool] [[.null .bool], [.bool true]] =
      .ok ⟨[.bool], [⟨[0], [.null .bool]⟩, ⟨[1], [.bool true]⟩]⟩ := rfl
  obtain ⟨o, ho, hdiscerns⟩ := check_discerns_interpreted_results _ (.ofRows hbuilt)
    ⟨[dropNegation]⟩ c (.field 0 .bool) (.not (.field 0 .bool)) rfl rfl (by decide)
  obtain ⟨i, a, b, hdiffer, houtcome⟩ := (hdiscerns [c]).rowMismatch (by decide)
    [⟨[0], .null .bool⟩, ⟨[1], .bool true⟩] [⟨[0], .null .bool⟩, ⟨[1], .bool false⟩] rfl rfl rfl
    (by decide)
  refine ⟨o, ho, ?_⟩
  match i, hdiffer with
  | 0, ⟨_, hlowered, hreference, hdiffer⟩ =>
    cases hlowered
    cases hreference
    simp at hdiffer
  | 1, ⟨_, hlowered, hreference, _⟩ =>
    cases hlowered
    cases hreference
    exact houtcome
  | i + 2, ⟨_, hlowered, _, _⟩ => cases hlowered

/-- The case of a placeholder under 257 negations. They take 256 levels of parentheses, one more
than a byte can count. -/
def deepCase : Case :=
  ⟨0, 0, .bool, 257, [.bool], .negations 257 (.root 0 .bool), ⟨#[some (.field 0 .bool)]⟩, .project⟩

/-- Where negations are dropped, the placeholder under them is left. -/
theorem lower_negations (n : Nat) :
    (Lowering.lower ⟨[dropNegation]⟩ (.negations n (.root 0 .bool))).value = .root 0 .bool := by
  have hlower? : (Lowering.lower? ⟨[dropNegation]⟩ (.negations n (.root 0 .bool))).value =
      if n = 0 then none else some (.root 0 .bool) := by
    induction n with
    | zero => rfl
    | succ n ih =>
      rw [Lowering.lower?] at ih
      rw [Expr.negations, Lowering.lower?, Expr.transform?, Logged.value_bind, ih]
      cases n <;> rfl
  rw [Lowering.value_lower, hlower?]
  cases n <;> rfl

/-- A placeholder under negations is bound to the column under as many. -/
theorem replaceRoots_negations (n : Nat) :
    deepCase.substitution.replaceRoots (.negations n (.root 0 .bool)) =
      .ok (.negations n (.field 0 .bool)) := by
  have hreplace? : deepCase.substitution.replaceRoots? (.negations n (.root 0 .bool)) =
      .ok (some (.negations n (.field 0 .bool))) := by
    induction n with
    | zero => rfl
    | succ n ih =>
      rw [Substitution.replaceRoots?] at ih
      rw [Expr.negations, Substitution.replaceRoots?, Expr.transform?, ih]
      rfl
  rw [Substitution.replaceRoots?] at hreplace?
  rw [Substitution.replaceRoots, Expr.transform, hreplace?]
  rfl

/-- The truth under an odd number of negations is false. -/
theorem evaluate_negations (n : Nat) :
    (Expr.negations (2 * n + 1) (.field 0 .bool)).evaluate [.bool true] = .ok (.bool false) := by
  induction n with
  | zero => rfl
  | succ n ih =>
    rw [Nat.mul_succ, Expr.negations, Expr.negations, Expr.evaluate, Expr.evaluate, ih]
    rfl

/-- Negations of a column are over the columns. -/
theorem fits_negations (n : Nat) : (Expr.negations n (.field 0 .bool)).Fits [.bool] := by
  induction n with
  | zero => decide
  | succ n ih =>
    rw [Expr.fits_iff] at ih
    rw [Expr.negations, Expr.fits_iff, Expr.rootFree_unary, Expr.fieldsMatch_unary]
    exact ih

/-- Where the interpreter can tell the lowered tree from the tree, a check does not always give an
error back: over one row, the placeholder under 257 negations differs from the placeholder alone,
which is what is left of it where negations are dropped, and it is not printable. -/
theorem check_of_deep_tree_can_break_off :
    ¬ ∀ (d : Dataset) (l : Lowering) (c : Case) (lowered reference : Expr) (o : Oracle), d.Built →
      c.substitution.replaceRoots (l.lower c.tree).value = .ok lowered →
      c.substitution.replaceRoots c.tree = .ok reference →
      lowered.Fits d.schema → reference.Fits d.schema → ofDataset d l = .ok o →
      ¬ PathResults.Agree ⟨d.query ⟨lowered, c.shape⟩, d.query ⟨reference, c.shape⟩⟩ →
      ∃ e, o.verdict? c = some (.error e) := by
  intro hfails
  let d : Dataset := ⟨[.bool], [⟨[0], [.bool true]⟩]⟩
  have hbuilt : d.Built := .ofRows (rfl : Dataset.ofRows [.bool] [[.bool true]] = .ok d)
  obtain ⟨o, ho, hover⟩ := exists_over hbuilt.conforms ⟨[dropNegation]⟩
  have hlowered : deepCase.substitution.replaceRoots
      (Lowering.lower ⟨[dropNegation]⟩ deepCase.tree).value = .ok (.field 0 .bool) := by
    rw [deepCase, lower_negations]
    rfl
  have hreference := replaceRoots_negations 257
  have hfits : (Expr.field 0 .bool).Fits d.schema := by decide
  have hfalse : (Expr.negations 257 (.field 0 .bool)).evaluate [.bool true] = .ok (.bool false) :=
    evaluate_negations 128
  have hrow : d.query ⟨.field 0 .bool, .project⟩ = .ok [⟨[0], .bool true⟩] := rfl
  have hrow' : d.query ⟨.negations 257 (.field 0 .bool), .project⟩ = .ok [⟨[0], .bool false⟩] := by
    rw [Dataset.query, Dataset.queryRows, hfalse]
    rfl
  have hdiffer : ¬ PathResults.Agree ⟨d.query ⟨.field 0 .bool, .project⟩,
      d.query ⟨.negations 257 (.field 0 .bool), .project⟩⟩ := by
    rw [hrow, hrow']
    rintro (⟨rows, htrue, hfalse⟩ | ⟨hzero, -⟩)
    · cases htrue
      cases hfalse
    · cases hzero
  have hdeep : deepCase.tree.isPrintable = false := by
    rw [Expr.isPrintable, deepCase, Expr.nesting_negations 256 rfl (by decide)]
    rfl
  have hnone := (hover.discerns hlowered hreference hfits).none_iff.mpr
    ⟨hdiffer, by rw [reportable, hdeep, Bool.false_and]⟩
  obtain ⟨e, herror⟩ := hfails d ⟨[dropNegation]⟩ deepCase _ _ o hbuilt hlowered hreference hfits
    (fits_negations 257) ho hdiffer
  rw [hnone] at herror
  cases herror

/-- A fault on one path only is a divergence that names it if it is tolerated, and unexpected if
not. A check is unexpected exactly if some path raises a fault that is not tolerated. Either error
is given back exactly if the tree and the lowered tree can be printed for its report. -/
theorem check_classifies_faults_by_tolerance (o : Oracle) (c : Case) (r : PathResults)
    (h : o.results c = .ok r) :
    let report := c.report (o.lowering.lower c.tree).value
    (∀ fault rows, r = ⟨.error fault, .ok rows⟩ → (o.check c).value.2 =
      .error (if fault.isTolerated then .divergence (report (.faultMismatch (some fault) none))
        else .unexpected (report (.unexpectedFault .lowered fault)))) ∧
    (∀ fault rows, r = ⟨.ok rows, .error fault⟩ → (o.check c).value.2 =
      .error (if fault.isTolerated then .divergence (report (.faultMismatch none (some fault)))
        else .unexpected (report (.unexpectedFault .reference fault)))) ∧
    ((∃ failure, (o.check c).value.2 = .error (.unexpected failure)) ↔
      ∃ fault, fault.isTolerated = false ∧
        (r.lowered = .error fault ∨ r.reference = .error fault)) ∧
    ∀ e, (o.check c).value.2 = .error e →
      o.verdict? c = if reportable o.lowering c then some (.error e) else none := by
  rw [verdict?, check_eq_judge h]
  refine ⟨?_, ?_, PathResults.exists_judge_eq_unexpected_iff, fun e he => ?_⟩
  · rintro fault rows rfl
    exact PathResults.judge_lowered_fault
  · rintro fault rows rfl
    exact PathResults.judge_reference_fault
  · have hreport (kind : FailureKind) :
        (c.report (o.lowering.lower c.tree).value kind).isPrintable = reportable o.lowering c := rfl
    exact PathResults.returned?_judge hreport he

/-- A date-time seen from the zone `-1000`, which is the complement of `999`. Without the complement
the zone is not known. -/
def complementZone : Case :=
  ⟨0, 0, .dateTime, 3, [.dateTime],
    .atTimeZone (.root 0 .dateTime) (.convert .string (.not (.intLit 999))),
    ⟨#[some (.field 0 .dateTime)]⟩, .project⟩

/-- Over one row, only the lowered path of the case faults if the complement is dropped. -/
theorem exists_results_complementZone :
    ∃ o : Oracle, o.lowering = ⟨[dropNegation]⟩ ∧ o.results complementZone =
      .ok ⟨.error (.unknownTimeZone "999"), .ok [⟨[0], .dateTime ⟨0, 0⟩⟩]⟩ := by
  have hbuilt : Dataset.ofRows [.dateTime] [[.dateTime ⟨0, 0⟩]] =
      .ok ⟨[.dateTime], [⟨[0], [.dateTime ⟨0, 0⟩]⟩]⟩ := rfl
  obtain ⟨o, -, hover⟩ := exists_over (Dataset.Built.ofRows hbuilt).conforms ⟨[dropNegation]⟩
  have hlowered : complementZone.substitution.replaceRoots
      (Lowering.lower ⟨[dropNegation]⟩ complementZone.tree).value =
        .ok (.atTimeZone (.field 0 .dateTime) (.convert .string (.intLit 999))) := rfl
  have hreference : complementZone.substitution.replaceRoots complementZone.tree =
      .ok (.atTimeZone (.field 0 .dateTime) (.convert .string (.not (.intLit 999)))) := rfl
  exact ⟨o, hover.lowering_eq, hover.results_eq hlowered hreference (by decide)⟩

/-- An unknown zone on one path only is unexpected, and an error that says so is given back. -/
theorem check_classifies_unknown_zone_on_one_path :
    ∃ (o : Oracle) (rows : List ResultRow),
      o.results complementZone = .ok ⟨.error (.unknownTimeZone "999"), .ok rows⟩ ∧
      (o.check complementZone).value.2 =
        .error (.unexpected (complementZone.report (o.lowering.lower complementZone.tree).value
          (.unexpectedFault .lowered (.unknownTimeZone "999")))) ∧
      o.verdict? complementZone =
        some (.error (.unexpected (complementZone.report
          (o.lowering.lower complementZone.tree).value
          (.unexpectedFault .lowered (.unknownTimeZone "999"))))) := by
  obtain ⟨o, hlowering, h⟩ := exists_results_complementZone
  obtain ⟨hlowered, -, -, hgiven⟩ := check_classifies_faults_by_tolerance o complementZone _ h
  have houtcome := hlowered _ _ rfl
  have hprint : reportable o.lowering complementZone = true := by
    rw [hlowering]
    decide
  have hverdict := hgiven _ houtcome
  rw [if_pos hprint] at hverdict
  exact ⟨o, _, h, houtcome, hverdict⟩

/-- A fault on one path only is not always a divergence. -/
theorem fault_on_one_path_can_be_unexpected :
    ¬ ∀ (o : Oracle) (c : Case) (fault : Fault) (rows : List ResultRow),
      o.results c = .ok ⟨.error fault, .ok rows⟩ →
        (o.check c).value.2 = .error (.divergence
          (c.report (o.lowering.lower c.tree).value (.faultMismatch (some fault) none))) := by
  intro hdivergence
  obtain ⟨o, -, h⟩ := exists_results_complementZone
  have houtcome := hdivergence o complementZone _ _ h
  rw [check_eq_judge h, PathResults.judge_lowered_fault] at houtcome
  cases houtcome

end Oracle

end QueryParity
