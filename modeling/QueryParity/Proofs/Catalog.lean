import QueryParity.Catalog.Standard
import QueryParity.Proofs.Expr.Typing

/-!
# Entries of a catalog are typed operators

Where every builder applies a single operator or function to its operands, an accepted entry is such
an operator with one of its signatures. The standard catalog is of this kind, and the only changes
of zone in it are those to `UTC`.
-/

namespace QueryParity.Catalog

open Outcome

/-- An operator with two operands is registered for its result type. -/
theorem mem_binariesOf {c : Catalog} {e : BinaryEntry} (h : .binary e ∈ c.entries) :
    e ∈ c.binariesOf e.result :=
  List.mem_filter.mpr ⟨List.mem_filterMap.mpr ⟨_, h, rfl⟩, decide_eq_true rfl⟩

/-- An operator with one operand is registered for its result type. -/
theorem mem_unariesOf {c : Catalog} {e : UnaryEntry} (h : .unary e ∈ c.entries) :
    e ∈ c.unariesOf e.result :=
  List.mem_filter.mpr ⟨List.mem_filterMap.mpr ⟨_, h, rfl⟩, decide_eq_true rfl⟩

/-- A builder applies a binary operator, one of the given functions or a unary operator to its
operands, or changes the zone of its operand to `UTC`. -/
inductive Builder.Plain (functions : Func → Prop) : Builder → Prop where
  /-- A binary operator. -/
  | binary (op : BinaryOp) : Plain functions (.binary (Expr.binary op))
  /-- A function. -/
  | call {f : Func} : functions f → Plain functions (.binary fun a b => .call f [a, b])
  /-- A unary operator. -/
  | unary (op : UnaryOp) : Plain functions (.unary (Expr.unary op))
  /-- The change to `UTC`. -/
  | utc : Plain functions (.unary Expr.atUtc)

/-- An entry is an operator or one of the given functions with one of its signatures. -/
inductive Entry.Typed (functions : Func → Prop) : Entry → Prop where
  /-- A binary operator. -/
  | binary {name : String} {lhs rhs result : ValueType} {op : BinaryOp} :
      op.resultType lhs rhs = some result →
      Typed functions (.binary ⟨name, lhs, rhs, result, Expr.binary op⟩)
  /-- A function. -/
  | call {name : String} {lhs rhs result : ValueType} {f : Func} : functions f →
      f.resultType [lhs, rhs] = some result →
      Typed functions (.binary ⟨name, lhs, rhs, result, fun a b => .call f [a, b]⟩)
  /-- A unary operator. -/
  | unary {name : String} {input result : ValueType} {op : UnaryOp} :
      op.resultType input = some result →
      Typed functions (.unary ⟨name, input, result, Expr.unary op⟩)
  /-- The change to `UTC`. -/
  | utc {name : String} : Typed functions (.unary ⟨name, .dateTime, .dateTime, Expr.atUtc⟩)

variable {functions : Func → Prop}

/-- What is accepted is what was declared. -/
theorem Descriptor.declared?_of_accept {d : Descriptor} {e : Entry} (h : d.accept = .ok e) :
    d.declared? = some e := by
  unfold accept at h
  split at h
  · cases h
  · rename_i entry he
    split at h
    · cases h
    · split at h
      · cases h
        exact he
      · cases h

/-- An accepted entry with a plain builder has one of the signatures of its operator. -/
theorem Descriptor.typed_of_accept {d : Descriptor} {e : Entry} (hb : d.builder.Plain functions)
    (h : d.accept = .ok e) : e.Typed functions := by
  have hdeclared := declared?_of_accept h
  have hinfer := infer_sample_of_accept h
  obtain ⟨name, inputs, result, builder⟩ := d
  cases hb with
  | binary op =>
    obtain _ | ⟨lhs, _ | ⟨rhs, _ | ⟨_, _⟩⟩⟩ := inputs <;> cases hdeclared
    obtain ⟨_, _, hl, hr, ht⟩ := Expr.infer_binary_eq_ok_iff.mp hinfer
    cases hl
    cases hr
    exact .binary ht
  | call hf =>
    obtain _ | ⟨lhs, _ | ⟨rhs, _ | ⟨_, _⟩⟩⟩ := inputs <;> cases hdeclared
    obtain ⟨_, _, _, _, hargs, hl, hr, ht⟩ := Expr.infer_call_eq_ok_iff.mp hinfer
    cases hargs
    cases hl
    cases hr
    exact .call hf ht
  | unary op =>
    obtain _ | ⟨input, _ | ⟨_, _⟩⟩ := inputs <;> cases hdeclared
    obtain ⟨_, ha, ht⟩ := Expr.infer_unary_eq_ok_iff.mp hinfer
    cases ha
    exact .unary ht
  | utc =>
    obtain _ | ⟨input, _ | ⟨_, _⟩⟩ := inputs <;> cases hdeclared
    obtain ⟨_, _, _, _, hargs, ha, hb, ht⟩ := Expr.infer_call_eq_ok_iff.mp hinfer
    cases hargs
    cases ha
    cases hb
    cases input <;> cases ht
    exact .utc

/-- A catalog is put together exactly from the operators that are accepted. -/
theorem ofDescriptors_eq_ok_iff {ds : List Descriptor} {c : Catalog} :
    ofDescriptors ds = .ok c ↔ ds.mapM Descriptor.accept = .ok c.entries := by
  rw [ofDescriptors, bind_eq_ok_iff]
  constructor
  · rintro ⟨entries, hentries, h⟩
    cases h
    exact hentries
  · intro h
    exact ⟨c.entries, h, rfl⟩

/-- The entries of a catalog are the declared operators, each accepted. -/
theorem exists_descriptor_of_ofDescriptors {ds : List Descriptor} {c : Catalog}
    (h : ofDescriptors ds = .ok c) : ∀ e ∈ c.entries, ∃ d ∈ ds, d.accept = .ok e :=
  exists_of_mem_mapM (ofDescriptors_eq_ok_iff.mp h)

/-- The entries of a catalog with plain builders have signatures of their operators. -/
theorem typed_of_ofDescriptors {ds : List Descriptor} {c : Catalog} (h : ofDescriptors ds = .ok c)
    (hds : ∀ d ∈ ds, d.builder.Plain functions) : ∀ e ∈ c.entries, e.Typed functions := by
  intro e he
  obtain ⟨d, hd, haccept⟩ := exists_descriptor_of_ofDescriptors h e he
  exact Descriptor.typed_of_accept (hds d hd) haccept

/-- The builders of the standard catalog are plain, and the change of zone is not among their
functions. -/
theorem plain_of_mem_standardDescriptors :
    ∀ d ∈ standardDescriptors, d.builder.Plain (· ≠ .atTimeZone) := by
  rw [standardDescriptors, List.forall_mem_append]
  constructor
  · simp only [List.forall_mem_cons]
    exact ⟨.binary .add, .binary .subtract, .binary .multiply, .binary .divide, .binary .modulo,
      .binary .leftShift, .binary .rightShift, .binary .and, .binary .or, .binary .andAlso,
      .binary .orElse, .binary .lessThan, .binary .lessThanOrEqual, .binary .greaterThan,
      .binary .greaterThanOrEqual, .binary .lessThan, .binary .greaterThan,
      .call (f := .like) nofun, .unary .not, .unary .not, .unary .negate, .utc,
      .unary (.convert .int), nofun⟩
  · have htests : ∀ type, ∀ d ∈ nullTests type, d.builder.Plain (· ≠ .atTimeZone) := by
      intro type
      simp only [nullTests, List.forall_mem_cons]
      exact ⟨.binary .equal, .binary .notEqual, .unary .isNull, .unary .isNotNull, nofun⟩
    intro d hd
    obtain ⟨type, -, hd⟩ := List.mem_flatMap.mp hd
    exact htests type d hd

end QueryParity.Catalog
