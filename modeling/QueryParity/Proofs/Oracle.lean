import QueryParity.Proofs.Lowering.Binding
import QueryParity.Proofs.Oracle.Checks
import QueryParity.Proofs.Query
import QueryParity.Proofs.Substitution

/-!
# The two paths agree

Over a dataset that its session holds, an oracle with the standard rules judges two results that are
the same, for every tree with a type whose placeholders stand for columns: the bound lowered tree
compiles, and it evaluates on every row to what the bound tree evaluates to. So a check by it raises
no false alarm: no such tree diverges, and only an unknown zone on both paths is unexpected, or a
filter by a tree that is not boolean.
-/

namespace QueryParity

open Outcome

/-- The placeholders of a case stand for columns of the schema and its fields are columns of the
schema, the columns are bound to the placeholders, and the tree has the type. -/
structure Case.Over (c : Case) (schema : List ValueType) (t : ValueType) : Prop where
  /-- The tree has the type. -/
  infer_eq : c.tree.infer = .ok t
  /-- The placeholders stand for columns. -/
  roots : ∀ i u, .root i u ∈ c.tree.preorder → schema[i]? = some u
  /-- The fields are columns. -/
  fieldsMatch : c.tree.FieldsMatch schema
  /-- The columns are bound. -/
  columns : Substitution.columns schema = .ok c.substitution

namespace Case.Over

variable {c : Case} {schema : List ValueType} {t : ValueType}

/-- The placeholders are replaced by fields. -/
theorem replaceRoots_eq (h : c.Over schema t) :
    c.substitution.replaceRoots c.tree = .ok (c.tree.mapRoots .field) :=
  Substitution.replaceRoots_eq_mapRoots fun i u hm =>
    Substitution.step_columns h.columns (h.roots i u hm)

/-- The bound tree has the type. -/
theorem infer_mapRoots (h : c.Over schema t) : (c.tree.mapRoots .field).infer = .ok t :=
  (Expr.infer_mapRoots fun _ _ _ => rfl).trans h.infer_eq

/-- The bound tree fits the schema. -/
theorem fits (h : c.Over schema t) : (c.tree.mapRoots .field).Fits schema :=
  Expr.fits_mapRoots_field h.roots h.fieldsMatch

/-- The case with the lowered tree. -/
theorem lower (h : c.Over schema t) :
    Case.Over { c with tree := (Lowering.standard.lower c.tree).value } schema t := by
  have hrewrites := rewrites_standard c.tree
  have hkeeps : KeepsMeaning schema c.tree (Lowering.standard.lower c.tree).value :=
    hrewrites.keepsMeaning fun _ _ hstep => hstep.keepsMeaning
  obtain ⟨⟨hinfer, hfields⟩, -⟩ := hkeeps t ⟨h.infer_eq, h.fieldsMatch⟩
  refine ⟨hinfer, fun i u hm => h.roots i u ?_, hfields, h.columns⟩
  rwa [← Expr.mem_roots_iff, roots_standard, Expr.mem_roots_iff] at hm

/-- On a row of the schema, the bound lowered tree evaluates to what the bound tree evaluates to. -/
theorem evaluate_lower (h : c.Over schema t) {row : List Value}
    (hrow : row.map Value.type = schema) :
    ((Lowering.standard.lower c.tree).value.mapRoots .field).evaluate row =
      (c.tree.mapRoots .field).evaluate row := by
  have hrewrites : Rewrites StandardStep (c.tree.mapRoots .field)
      ((Lowering.standard.lower c.tree).value.mapRoots .field) :=
    (rewrites_standard c.tree).mapRoots fun _ _ hstep => hstep.mapRoots
  have hkeeps : KeepsMeaning schema (c.tree.mapRoots .field) _ :=
    hrewrites.keepsMeaning fun _ _ hstep => hstep.keepsMeaning
  exact (hkeeps t ⟨h.infer_mapRoots, h.fits.fieldsMatch⟩).2 row hrow

/-- A tree with a type whose placeholders stand for columns is a case over the schema, if the
columns can be bound. -/
theorem exists_ofTree {tree : Expr} (ht : tree.infer = .ok t)
    (hroots : ∀ i u, .root i u ∈ tree.preorder → schema[i]? = some u)
    (hfields : tree.FieldsMatch schema) (hwidth : schema.length ≤ indexLimit)
    (shape : QueryShape) :
    ∃ c, Case.ofTree tree t schema shape = .ok c ∧ c.Over schema t ∧ c.shape = shape := by
  obtain ⟨s, hs⟩ := Substitution.exists_columns hwidth
  refine ⟨⟨0, 0, t, tree.depth, schema, tree, s, shape⟩, ?_, ⟨ht, hroots, hfields, hs⟩, rfl⟩
  rw [Case.ofTree, hs, ok_bind]

/-- A fault of the bound tree that is not tolerated is an unknown zone, unless the tree of a filter
is not boolean. -/
theorem exists_zone_of_query {d : Dataset} (hd : d.Conforms) (h : c.Over d.schema t)
    (hshape : c.shape = .filter → t = .bool) {fault : Fault}
    (hquery : d.query ⟨c.tree.mapRoots .field, c.shape⟩ = .error fault)
    (hfault : fault.isTolerated = false) : ∃ zone, fault = .unknownTimeZone zone := by
  obtain ⟨r, -, hpossible⟩ := Dataset.exists_possibleFault_of_query hd h.infer_mapRoots
    h.fits.fieldsMatch hshape hquery
  cases hpossible with
  | divideByZero => cases hfault
  | unboundRoot hmem => exact absurd hmem (h.fits.rootFree _ _)
  | unknownTimeZone _ _ _ => exact ⟨_, rfl⟩

end Case.Over

namespace Oracle

/-- An oracle with the standard rules over a dataset that conforms to its schema and that the
session holds. -/
structure Standard (o : Oracle) : Prop where
  /-- The dataset conforms. -/
  conforms : o.dataset.Conforms
  /-- The session holds the dataset. -/
  holds : o.session.Holds o.dataset
  /-- The rules are the standard ones. -/
  lowering_eq : o.lowering = .standard

variable {o : Oracle} {c : Case} {d : Dataset} {t : ValueType}

/-- An oracle with the standard rules is an oracle over its own dataset. -/
theorem Standard.over (h : o.Standard) : o.Over o.dataset .standard :=
  ⟨rfl, h.holds, h.lowering_eq⟩

/-- An oracle over a dataset that conforms has the standard rules if these are its lowering. -/
theorem Over.standard (h : o.Over d .standard) (hd : d.Conforms) : o.Standard := by
  obtain ⟨rfl, hholds, hlowering⟩ := h
  exact ⟨hd, hholds, hlowering⟩

/-- There is an oracle with the standard rules over every dataset that conforms. -/
theorem exists_ofDataset (h : d.Conforms) :
    ∃ o, ofDataset d .standard = .ok o ∧ o.Standard ∧ o.dataset = d := by
  obtain ⟨o, ho, hover⟩ := exists_over h .standard
  exact ⟨o, ho, hover.standard h, hover.dataset_eq⟩

/-- An oracle with the standard rules remains one. -/
theorem Standard.check (h : o.Standard) (c : Case) : (o.check c).value.1.Standard :=
  (h.over.check c).standard h.conforms

/-- Over an oracle with the standard rules, both results of the check of a case over the schema are
the result of the bound tree. -/
theorem Standard.results_eq (ho : o.Standard) (hc : c.Over o.dataset.schema t) :
    o.results c = .ok ⟨o.dataset.query ⟨c.tree.mapRoots .field, c.shape⟩,
      o.dataset.query ⟨c.tree.mapRoots .field, c.shape⟩⟩ := by
  have hlowered := hc.lower
  have hsame : o.dataset.query
      ⟨(Lowering.standard.lower c.tree).value.mapRoots .field, c.shape⟩ =
        o.dataset.query ⟨c.tree.mapRoots .field, c.shape⟩ :=
    Dataset.query_congr fun r hr => hc.evaluate_lower (ho.conforms r hr)
  rw [ho.over.results_eq hlowered.replaceRoots_eq hc.replaceRoots_eq hlowered.fits, hsame]

/-- Over an oracle with the standard rules, the check of a case over the schema judges twice the
result of the bound tree. -/
theorem Standard.check_eq_judge (ho : o.Standard) (hc : c.Over o.dataset.schema t) :
    (o.check c).value.2 =
      (PathResults.mk (o.dataset.query ⟨c.tree.mapRoots .field, c.shape⟩)
        (o.dataset.query ⟨c.tree.mapRoots .field, c.shape⟩)).judge
          (c.report (Lowering.standard.lower c.tree).value) := by
  rw [Oracle.check_eq_judge (ho.results_eq hc), ho.lowering_eq]

/-- Over an oracle with the standard rules, the check of a case over the schema can only fail by a
fault on both paths that is not tolerated. -/
theorem Standard.exists_fault_of_check (ho : o.Standard) (hc : c.Over o.dataset.schema t)
    {e : CheckError} (he : (o.check c).value.2 = .error e) :
    ∃ fault, o.dataset.query ⟨c.tree.mapRoots .field, c.shape⟩ = .error fault ∧
      fault.isTolerated = false ∧ ∃ failure, e = .unexpected failure := by
  rw [ho.check_eq_judge hc, PathResults.judge_same] at he
  cases hresult : o.dataset.query ⟨c.tree.mapRoots .field, c.shape⟩ with
  | ok rows =>
    rw [hresult] at he
    cases he
  | error fault =>
    rw [hresult] at he
    cases htolerated : fault.isTolerated with
    | true =>
      simp only [htolerated, if_true] at he
      cases he
    | false =>
      simp only [htolerated, Bool.false_eq_true, if_false] at he
      cases he
      exact ⟨fault, rfl, htolerated, _, rfl⟩

/-- A check by the standard rules raises no false alarm, whatever was checked before: for a tree
with a type whose placeholders stand for the columns of any dataset, it never reports a divergence
or a placeholder that cannot be replaced. If a fault is unexpected, both paths met an unknown zone,
or the tree of a filter is not boolean. -/
theorem standard_check_raises_no_false_alarm (d : Dataset) (hd : d.Built)
    (hwidth : d.schema.length ≤ indexLimit) (tree : Expr) (t : ValueType)
    (ht : tree.infer = .ok t) (hfields : ∀ column u, .field column u ∉ tree.preorder)
    (hroots : ∀ i u, .root i u ∈ tree.preorder → d.schema[i]? = some u) (shape : QueryShape) :
    ∃ o c, ofDataset d .standard = .ok o ∧ Case.ofTree tree t d.schema shape = .ok c ∧
      ∀ (earlier : List Case) (e : CheckError), ((o.after earlier).check c).value.2 = .error e →
        (∃ failure, e = .unexpected failure) ∧
          ((∃ zone, (o.after earlier).results c =
              .ok ⟨.error (.unknownTimeZone zone), .error (.unknownTimeZone zone)⟩) ∨
            (shape = .filter ∧ t ≠ .bool)) := by
  have hmatch : tree.FieldsMatch d.schema := fun column u hmem => absurd hmem (hfields column u)
  obtain ⟨c, hc, hcase, rfl⟩ := Case.Over.exists_ofTree ht hroots hmatch hwidth shape
  obtain ⟨o, ho, hover⟩ := exists_over hd.conforms .standard
  refine ⟨o, c, ho, hc, fun earlier e he => ?_⟩
  have hafter := hover.after earlier
  have hstandard := hafter.standard hd.conforms
  rw [← hafter.dataset_eq] at hcase
  obtain ⟨fault, hquery, hfault, hunexpected⟩ := hstandard.exists_fault_of_check hcase he
  refine ⟨hunexpected, ?_⟩
  -- A filter by a tree of another type faults on the first value that it meets.
  by_cases hshape : c.shape = .filter → t = .bool
  · obtain ⟨zone, rfl⟩ := hcase.exists_zone_of_query hstandard.conforms hshape hquery hfault
    exact .inl ⟨zone, by rw [hstandard.results_eq hcase, hquery]⟩
  · exact .inr (Classical.not_imp.mp hshape)

/-- A filter that keeps its first row and then meets an unknown zone: both paths met the zone. -/
theorem standard_check_reports_zone_after_kept_row :
    let d : Dataset := ⟨[.dateTime, .string], [⟨[0], [.dateTime ⟨0, 0⟩, .string "utc"]⟩,
      ⟨[1], [.dateTime ⟨0, 0⟩, .string "Mars"]⟩]⟩
    let tree : Expr := .isNotNull (.atTimeZone (.root 0 .dateTime) (.root 1 .string))
    ∃ o c failure zone, ofDataset d .standard = .ok o ∧
      Case.ofTree tree .bool d.schema .filter = .ok c ∧
        (o.check c).value.2 = .error (.unexpected failure) ∧
          o.results c = .ok ⟨.error (.unknownTimeZone zone), .error (.unknownTimeZone zone)⟩ := by
  intro d tree
  have hbuilt : Dataset.ofRows [.dateTime, .string]
      [[.dateTime ⟨0, 0⟩, .string "utc"], [.dateTime ⟨0, 0⟩, .string "Mars"]] = .ok d := rfl
  have hroots : ∀ i u, .root i u ∈ tree.preorder → d.schema[i]? = some u := by
    intro i u hmem
    obtain ⟨rfl, rfl⟩ | ⟨rfl, rfl⟩ : i = 0 ∧ u = .dateTime ∨ i = 1 ∧ u = .string := by
      simpa [tree, Expr.isNotNull, Expr.atTimeZone] using hmem
    · rfl
    · rfl
  obtain ⟨o, c, ho, hc, halarm⟩ := standard_check_raises_no_false_alarm d (.ofRows hbuilt)
    (by decide) tree .bool rfl (by simp [tree, Expr.isNotNull, Expr.atTimeZone]) hroots .filter
  obtain ⟨o', ho', hstandard, hdataset⟩ := exists_ofDataset (Dataset.Built.ofRows hbuilt).conforms
  cases ho.symm.trans ho'
  obtain ⟨c', hc', hcase, -⟩ := Case.Over.exists_ofTree rfl hroots (by decide) (by decide) .filter
  cases hc.symm.trans hc'
  have houtcome := hstandard.check_eq_judge (hdataset ▸ hcase)
  rw [hdataset] at houtcome
  cases hc
  obtain ⟨⟨failure, hfailure⟩, ⟨zone, hzone⟩ | ⟨-, hbool⟩⟩ := halarm [] _ houtcome
  · exact ⟨o, _, failure, zone, ho, rfl, houtcome.trans (congrArg Except.error hfailure), hzone⟩
  · exact absurd rfl hbool

end Oracle

end QueryParity
