import QueryParity.Oracle
import QueryParity.Proofs.Outcome

/-!
# Judgements on the results of two paths

Two results are rows on both paths, rows on one path and a fault on the other, or two faults. Rows
are compared by number and then from the first position on. A fault that is not tolerated is
unexpected on either path, whatever the other path does; so a tolerated fault is a divergence if the
other path returns rows, and on both paths it is skipped. A judgement that fails is given back if
the trees of its report are printable.
-/

namespace QueryParity

/-- Two lists of rows agree before a position, and at the position they have rows that differ in
their keys or in their values. -/
structure DifferAt (lowered reference : List ResultRow) (i : Nat) (a b : ResultRow) : Prop where
  /-- The rows before the position. -/
  before : lowered.take i = reference.take i
  /-- The row at the position of the first list. -/
  lowered : lowered[i]? = some a
  /-- The row at the position of the second list. -/
  reference : reference[i]? = some b
  /-- What the rows differ in. -/
  differ : a.key ≠ b.key ∨ a.value ≠ b.value

/-- A difference behind two rows that are the same is one position further. -/
theorem DifferAt.cons {lowered reference : List ResultRow} {i : Nat} {a b : ResultRow}
    (h : DifferAt lowered reference i a b) (r : ResultRow) :
    DifferAt (r :: lowered) (r :: reference) (i + 1) a b where
  before := by rw [List.take_succ_cons, List.take_succ_cons, h.before]
  lowered := h.lowered
  reference := h.reference
  differ := h.differ

/-- Rows that are not the same differ in their keys or in their values. -/
theorem ResultRow.differ_of_ne {a b : ResultRow} (h : a ≠ b) :
    a.key ≠ b.key ∨ a.value ≠ b.value := by
  obtain ⟨key, value⟩ := a
  obtain ⟨key', value'⟩ := b
  by_cases hkey : key = key'
  · subst hkey
    exact .inr fun hvalue => h (congrArg (ResultRow.mk key) hvalue)
  · exact .inl hkey

namespace CheckError

variable {α : Type} {outcome : Except CheckError α} {a : α} {e : CheckError}

/-- Exactly the results of checks that succeed are given back as such. -/
theorem returned?_eq_ok_iff : returned? outcome = some (.ok a) ↔ outcome = .ok a := by
  cases outcome with
  | ok b => simp [returned?]
  | error e =>
    rw [returned?]
    split <;> simp

/-- An error is given back exactly if the trees of its report are printable. -/
theorem returned?_eq_error_iff : returned? outcome = some (.error e) ↔
    outcome = .error e ∧ e.report?.all FailureReport.isPrintable = true := by
  cases outcome with
  | ok b => simp [returned?]
  | error e' =>
    rw [returned?, Option.ite_none_right_eq_some, Option.some.injEq, Except.error.injEq]
    constructor
    · rintro ⟨hprintable, rfl⟩
      exact ⟨rfl, hprintable⟩
    · rintro ⟨rfl, hprintable⟩
      exact ⟨hprintable, rfl⟩

/-- Nothing is given back exactly if the trees of the report of an error are not printable. -/
theorem returned?_eq_none_iff : returned? outcome = none ↔
    ∃ e, outcome = .error e ∧ e.report?.all FailureReport.isPrintable = false := by
  cases outcome with
  | ok b => simp [returned?]
  | error e => simp [returned?]

end CheckError

namespace PathResults

open Outcome

variable {lowered reference : List ResultRow} {report : FailureKind → FailureReport}

/-- Of two lists of one length that are not the same, the rows at the first position at which they
differ are found. -/
theorem exists_differAt (hlength : lowered.length = reference.length) (hne : lowered ≠ reference) :
    ∃ i a b, DifferAt lowered reference i a b ∧
      difference? lowered reference = some (.rowMismatch a b) := by
  rw [difference?, if_pos hlength]
  -- Two heads that are the same move the position on; the first two that are not are it.
  induction lowered generalizing reference with
  | nil => exact absurd (List.length_eq_zero_iff.mp hlength.symm).symm hne
  | cons a lowered ih =>
    cases reference with
    | nil => cases hlength
    | cons b reference =>
      by_cases hab : a = b
      · subst hab
        have hrest : lowered ≠ reference := fun h => hne (congrArg (a :: ·) h)
        obtain ⟨i, x, y, hdiffer, hfound⟩ := ih (Nat.succ.inj hlength) hrest
        refine ⟨i + 1, x, y, hdiffer.cons a, ?_⟩
        rwa [List.zip_cons_cons, List.find?_cons_of_neg (by simp)]
      · refine ⟨0, a, b, ⟨rfl, rfl, rfl, ResultRow.differ_of_ne hab⟩, ?_⟩
        rw [List.zip_cons_cons, List.find?_cons_of_pos (by simpa using hab), Option.map_some]

/-- Rows on both paths are compared. -/
theorem judge_rows :
    (mk (.ok lowered) (.ok reference)).judge report =
      match difference? lowered reference with
      | some kind => .error (.divergence (report kind))
      | none => .ok (.equivalent reference.length) := rfl

/-- A fault of the lowered path alone is a divergence if it is tolerated, and unexpected if not. -/
theorem judge_lowered_fault {fault : Fault} :
    (mk (.error fault) (.ok reference)).judge report =
      .error (if fault.isTolerated then .divergence (report (.faultMismatch (some fault) none))
        else .unexpected (report (.unexpectedFault .lowered fault))) := by
  by_cases h : fault.isTolerated <;> simp [judge, untolerated?, fault?, Option.filter, h]

/-- A fault of the reference path alone is a divergence if it is tolerated, and unexpected if
not. -/
theorem judge_reference_fault {fault : Fault} :
    (mk (.ok lowered) (.error fault)).judge report =
      .error (if fault.isTolerated then .divergence (report (.faultMismatch none (some fault)))
        else .unexpected (report (.unexpectedFault .reference fault))) := by
  by_cases h : fault.isTolerated <;> simp [judge, untolerated?, fault?, Option.filter, h]

/-- Two faults are skipped if both are tolerated; otherwise the first one that is not is
unexpected. -/
theorem judge_faults {fault fault' : Fault} :
    (mk (.error fault) (.error fault')).judge report =
      if fault.isTolerated then
        if fault'.isTolerated then .ok (.skipped fault)
        else .error (.unexpected (report (.unexpectedFault .reference fault')))
      else .error (.unexpected (report (.unexpectedFault .lowered fault))) := by
  by_cases h : fault.isTolerated <;> by_cases h' : fault'.isTolerated <;>
    simp [judge, untolerated?, fault?, Option.filter, h, h']

/-- Exactly the same rows are equivalent. -/
theorem judge_eq_equivalent_iff {r : PathResults} {n : Nat} :
    r.judge report = .ok (.equivalent n) ↔
      ∃ rows, r.lowered = .ok rows ∧ r.reference = .ok rows ∧ rows.length = n := by
  obtain ⟨f | lowered, f' | reference⟩ := r
  · rw [judge_faults]
    cases f.isTolerated <;> cases f'.isTolerated <;> simp
  · simp [judge_lowered_fault]
  · simp [judge_reference_fault]
  · rw [judge_rows]
    cases hdiff : difference? lowered reference with
    | none =>
      obtain rfl := difference?_eq_none_iff.mp hdiff
      simp
    | some kind =>
      have hne : lowered ≠ reference := by
        rintro rfl
        rw [difference?_eq_none_iff.mpr rfl] at hdiff
        cases hdiff
      simp only [reduceCtorEq, false_iff]
      rintro ⟨rows, hlowered, hreference, -⟩
      exact hne ((Except.ok.inj hlowered).trans (Except.ok.inj hreference).symm)

/-- Exactly a division by zero on both paths is skipped. -/
theorem judge_eq_skipped_iff {r : PathResults} {fault : Fault} :
    r.judge report = .ok (.skipped fault) ↔
      fault = .divideByZero ∧ r.lowered = .error .divideByZero ∧
        r.reference = .error .divideByZero := by
  obtain ⟨f | lowered, f' | reference⟩ := r
  · rw [judge_faults]
    simp only [Fault.isTolerated_iff, Except.error.injEq]
    by_cases hf : f = .divideByZero
    · by_cases hf' : f' = .divideByZero
      · simp [hf, hf', eq_comm]
      · simp [hf, hf']
    · simp [hf]
  · simp [judge_lowered_fault]
  · simp [judge_reference_fault]
  · rw [judge_rows]
    cases difference? lowered reference <;> simp

/-- A judgement is unexpected exactly if one of the paths raised a fault that is not tolerated. -/
theorem exists_judge_eq_unexpected_iff {r : PathResults} :
    (∃ failure, r.judge report = .error (.unexpected failure)) ↔
      ∃ fault, fault.isTolerated = false ∧
        (r.lowered = .error fault ∨ r.reference = .error fault) := by
  simp only [and_or_left, exists_or]
  obtain ⟨f | lowered, f' | reference⟩ := r
  · rw [judge_faults]
    simp only [Except.error.injEq, exists_eq_right']
    cases f.isTolerated <;> cases f'.isTolerated <;> simp
  · rw [judge_lowered_fault]
    simp only [Except.error.injEq, exists_eq_right']
    cases f.isTolerated <;> simp
  · rw [judge_reference_fault]
    simp only [Except.error.injEq, exists_eq_right']
    cases f'.isTolerated <;> simp
  · rw [judge_rows]
    cases difference? lowered reference <;> simp

/-- A judgement that fails is a divergence or an unexpected fault, and it carries a report. -/
theorem exists_report_of_judge {r : PathResults} {e : CheckError} (h : r.judge report = .error e) :
    ∃ kind, e = .divergence (report kind) ∨ e = .unexpected (report kind) := by
  obtain ⟨lowered | lowered, reference | reference⟩ := r
  · rw [judge_faults] at h
    split at h
    · split at h <;> cases h
      exact ⟨_, .inr rfl⟩
    · cases h
      exact ⟨_, .inr rfl⟩
  · rw [judge_lowered_fault] at h
    split at h <;> cases h
    · exact ⟨_, .inl rfl⟩
    · exact ⟨_, .inr rfl⟩
  · rw [judge_reference_fault] at h
    split at h <;> cases h
    · exact ⟨_, .inl rfl⟩
    · exact ⟨_, .inr rfl⟩
  · rw [judge_rows] at h
    split at h <;> cases h
    exact ⟨_, .inl rfl⟩

/-- The judgement on twice the same result: rows are equivalent, a tolerated fault is skipped, and
any other fault is unexpected. -/
theorem judge_same (result : Except Fault (List ResultRow))
    (report : FailureKind → FailureReport) :
    (mk result result).judge report =
      match result with
      | .ok rows => .ok (.equivalent rows.length)
      | .error fault =>
        if fault.isTolerated then .ok (.skipped fault)
        else .error (.unexpected (report (.unexpectedFault .lowered fault))) := by
  cases result with
  | ok rows => exact judge_eq_equivalent_iff.mpr ⟨rows, rfl, rfl, rfl⟩
  | error fault =>
    rw [judge_faults]
    by_cases h : fault.isTolerated <;> simp [h]

/-- The paths agree if they return the same rows, or if both divide by zero. -/
def Agree (r : PathResults) : Prop :=
  (∃ rows, r.lowered = .ok rows ∧ r.reference = .ok rows) ∨
    (r.lowered = .error .divideByZero ∧ r.reference = .error .divideByZero)

/-- A judgement fails exactly if the paths do not agree. -/
theorem exists_judge_eq_error_iff (r : PathResults) (report : FailureKind → FailureReport) :
    (∃ e, r.judge report = .error e) ↔ ¬ r.Agree := by
  rw [exists_error_iff]
  constructor
  · rintro hfails (⟨rows, hlowered, hreference⟩ | hzero)
    · exact hfails _ (judge_eq_equivalent_iff.mpr ⟨rows, hlowered, hreference, rfl⟩)
    · exact hfails _ (judge_eq_skipped_iff.mpr ⟨rfl, hzero⟩)
  · intro hdisagree verdict hok
    cases verdict with
    | equivalent n =>
      obtain ⟨rows, hlowered, hreference, -⟩ := judge_eq_equivalent_iff.mp hok
      exact hdisagree (.inl ⟨rows, hlowered, hreference⟩)
    | skipped fault => exact hdisagree (.inr (judge_eq_skipped_iff.mp hok).2)

/-- Different numbers of rows are reported. -/
theorem judge_of_length_ne (h : lowered.length ≠ reference.length) :
    (mk (.ok lowered) (.ok reference)).judge report =
      .error (.divergence (report (.rowCountMismatch lowered.length reference.length))) := by
  rw [judge_rows, difference?, if_neg h]

/-- Of as many rows on both paths, the first pair that differs is reported. -/
theorem exists_judge_of_ne (report : FailureKind → FailureReport)
    (hlength : lowered.length = reference.length) (hne : lowered ≠ reference) :
    ∃ i a b, DifferAt lowered reference i a b ∧ (mk (.ok lowered) (.ok reference)).judge report =
      .error (.divergence (report (.rowMismatch a b))) := by
  obtain ⟨i, a, b, hdiffer, hfound⟩ := exists_differAt hlength hne
  exact ⟨i, a, b, hdiffer, by rw [judge_rows, hfound]⟩

/-- Whether the report of a judgement that fails is printable does not depend on what went wrong. -/
theorem isPrintable_of_judge {r : PathResults} {printable : Bool}
    (hprintable : ∀ kind, (report kind).isPrintable = printable) {e : CheckError}
    (h : r.judge report = .error e) :
    e.report?.all FailureReport.isPrintable = printable := by
  obtain ⟨kind, rfl | rfl⟩ := exists_report_of_judge h <;> exact hprintable kind

/-- A judgement fails with a report that is printable, or not, exactly if the paths do not agree and
the trees are so. -/
theorem exists_judge_eq_error_and_iff (r : PathResults) {printable : Bool}
    (hprintable : ∀ kind, (report kind).isPrintable = printable) (b : Bool) :
    (∃ e, r.judge report = .error e ∧ e.report?.all FailureReport.isPrintable = b) ↔
      ¬ r.Agree ∧ printable = b := by
  rw [← exists_judge_eq_error_iff r report]
  constructor
  · rintro ⟨e, hjudge, hall⟩
    exact ⟨⟨e, hjudge⟩, (isPrintable_of_judge hprintable hjudge).symm.trans hall⟩
  · rintro ⟨⟨e, hjudge⟩, hprint⟩
    exact ⟨e, hjudge, (isPrintable_of_judge hprintable hjudge).trans hprint⟩

/-- A judgement that fails is given back if its report is printable. -/
theorem returned?_judge {r : PathResults} {printable : Bool}
    (hprintable : ∀ kind, (report kind).isPrintable = printable) {e : CheckError}
    (h : r.judge report = .error e) :
    CheckError.returned? (r.judge report) = if printable then some (.error e) else none := by
  rw [h, CheckError.returned?, isPrintable_of_judge hprintable h]

/-- What a check gives back tells two results apart, if it fails only when the trees of its report
are `printable`. It accepts exactly the same rows and a division by zero on both paths, and of rows
that are not the same it reports what they differ in first. -/
structure Discerns (r : PathResults) (report : FailureKind → FailureReport) (printable : Bool)
    (given : Option (Except CheckError Verdict)) : Prop where
  /-- The paths are equivalent exactly if they have the same rows, so many of them. -/
  equivalent_iff : ∀ n, given = some (.ok (.equivalent n)) ↔
    ∃ rows, r.lowered = .ok rows ∧ r.reference = .ok rows ∧ rows.length = n
  /-- The case is skipped exactly if both paths divide by zero. -/
  skipped_iff : ∀ fault, given = some (.ok (.skipped fault)) ↔
    fault = .divideByZero ∧ r.lowered = .error .divideByZero ∧ r.reference = .error .divideByZero
  /-- In all other cases an error is given back if it can be reported. -/
  error_iff : (∃ e, given = some (.error e)) ↔ ¬ r.Agree ∧ printable = true
  /-- Nothing is given back if it cannot. -/
  none_iff : given = none ↔ ¬ r.Agree ∧ printable = false
  /-- Different numbers of rows are reported. -/
  rowCount : printable = true → ∀ lowered reference,
    r.lowered = .ok lowered → r.reference = .ok reference → lowered.length ≠ reference.length →
      given = some (.error (.divergence (report
        (.rowCountMismatch lowered.length reference.length))))
  /-- Of as many rows on both paths, the first pair that differs is reported. -/
  rowMismatch : printable = true → ∀ lowered reference,
    r.lowered = .ok lowered → r.reference = .ok reference → lowered.length = reference.length →
      lowered ≠ reference → ∃ i a b, DifferAt lowered reference i a b ∧
        given = some (.error (.divergence (report (.rowMismatch a b))))

/-- What is given back of the judgement on two results tells them apart. -/
theorem discerns_judge (r : PathResults) {printable : Bool}
    (hprintable : ∀ kind, (report kind).isPrintable = printable) :
    r.Discerns report printable (CheckError.returned? (r.judge report)) where
  equivalent_iff n := CheckError.returned?_eq_ok_iff.trans judge_eq_equivalent_iff
  skipped_iff fault := CheckError.returned?_eq_ok_iff.trans judge_eq_skipped_iff
  error_iff := by
    simp only [CheckError.returned?_eq_error_iff]
    exact r.exists_judge_eq_error_and_iff hprintable true
  none_iff := by
    rw [CheckError.returned?_eq_none_iff]
    exact r.exists_judge_eq_error_and_iff hprintable false
  rowCount hprint lowered reference hlowered hreference hlength := by
    obtain ⟨_, _⟩ := r
    cases hlowered
    cases hreference
    rw [returned?_judge hprintable (judge_of_length_ne hlength), if_pos hprint]
  rowMismatch hprint lowered reference hlowered hreference hlength hne := by
    obtain ⟨_, _⟩ := r
    cases hlowered
    cases hreference
    obtain ⟨i, a, b, hdiffer, hjudge⟩ := exists_judge_of_ne report hlength hne
    exact ⟨i, a, b, hdiffer, by rw [returned?_judge hprintable hjudge, if_pos hprint]⟩

end PathResults

end QueryParity
