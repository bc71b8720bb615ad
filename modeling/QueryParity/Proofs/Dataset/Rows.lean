import QueryParity.Proofs.Dataset

/-!
# Rows are checked one by one

Rows make a dataset exactly if each of them has one value per column, of the type of the column.
Otherwise the error is about the first row that does not: its width, if that is wrong, and else the
first of its values that is of another type.
-/

namespace QueryParity.Dataset

open Outcome

variable {schema : List ValueType} {row column start : Nat} {values : List Value}
  {rows : List (List Value)} {e : ConfigError}

/-- The column is the first one whose value is of another type than the column. -/
structure Mistyped (schema : List ValueType) (values : List Value) (column : Nat)
    (expected : ValueType) (v : Value) : Prop where
  /-- The type of the column. -/
  type_eq : schema[column]? = some expected
  /-- The value in the column. -/
  value_eq : values[column]? = some v
  /-- The value is of another type. -/
  type_ne : v.type ≠ expected
  /-- The values before it are of the types of their columns. -/
  before_eq : (values.take column).map Value.type = schema.take column

/-- The first column is the first mistyped one exactly if its value is of another type. -/
theorem mistyped_zero_iff {expected expected' : ValueType} {v v' : Value} :
    Mistyped (expected :: schema) (v :: values) 0 expected' v' ↔
      v.type ≠ expected ∧ expected' = expected ∧ v' = v := by
  constructor
  · rintro ⟨htype, hvalue, hne, -⟩
    cases htype
    cases hvalue
    exact ⟨hne, rfl, rfl⟩
  · rintro ⟨hne, rfl, rfl⟩
    exact ⟨rfl, rfl, hne, rfl⟩

/-- A later column is the first mistyped one exactly if the first column is not, and it is the first
one among those behind it. -/
theorem mistyped_succ_iff {expected expected' : ValueType} {v v' : Value} :
    Mistyped (expected :: schema) (v :: values) (column + 1) expected' v' ↔
      v.type = expected ∧ Mistyped schema values column expected' v' := by
  constructor
  · rintro ⟨htype, hvalue, hne, hbefore⟩
    rw [List.take_succ_cons, List.take_succ_cons, List.map_cons, List.cons.injEq] at hbefore
    exact ⟨hbefore.1, htype, hvalue, hne, hbefore.2⟩
  · rintro ⟨rfl, htype, hvalue, hne, hbefore⟩
    refine ⟨htype, hvalue, hne, ?_⟩
    rw [List.take_succ_cons, List.take_succ_cons, List.map_cons, hbefore]

/-- The types of a row are refused because of the first mistyped column. -/
theorem checkTypes_eq_error_iff :
    checkTypes row start schema values = .error e ↔
      ∃ column expected v, Mistyped schema values column expected v ∧
        e = .datasetTypeMismatch row (start + column) expected v.type := by
  induction values generalizing start schema with
  | nil =>
    refine iff_of_false (by cases schema <;> nofun) ?_
    rintro ⟨column, expected, v, ⟨-, hvalue, -, -⟩, -⟩
    cases hvalue
  | cons v values ih =>
    cases schema with
    | nil =>
      refine iff_of_false nofun ?_
      rintro ⟨column, expected, v, ⟨htype, -, -, -⟩, -⟩
      cases htype
    | cons expected schema =>
      rw [checkTypes]
      by_cases hv : v.type = expected
      · rw [if_pos hv, ih]
        constructor
        · rintro ⟨column, expected', v', hmistyped, rfl⟩
          refine ⟨column + 1, expected', v', mistyped_succ_iff.mpr ⟨hv, hmistyped⟩, ?_⟩
          rw [Nat.add_assoc, Nat.add_comm 1]
        · rintro ⟨column, expected', v', hmistyped, rfl⟩
          cases column with
          | zero => exact absurd hv (mistyped_zero_iff.mp hmistyped).1
          | succ column =>
            refine ⟨column, expected', v', (mistyped_succ_iff.mp hmistyped).2, ?_⟩
            rw [Nat.add_assoc, Nat.add_comm 1]
      · rw [if_neg hv]
        constructor
        · intro h
          cases h
          exact ⟨0, expected, v, mistyped_zero_iff.mpr ⟨hv, rfl, rfl⟩, rfl⟩
        · rintro ⟨column, expected', v', hmistyped, rfl⟩
          cases column with
          | zero =>
            obtain ⟨-, rfl, rfl⟩ := mistyped_zero_iff.mp hmistyped
            rfl
          | succ column => exact absurd (mistyped_succ_iff.mp hmistyped).1 hv

/-- What is wrong with a row: its width or, if that is right, the first mistyped column. -/
inductive Flaw (schema : List ValueType) (row : Nat) (values : List Value) :
    ConfigError → Prop where
  /-- There is not one value per column. -/
  | width : values.length ≠ schema.length →
      Flaw schema row values (.datasetWidthMismatch row schema.length values.length)
  /-- There is one, but a value is of another type than its column. -/
  | type {column : Nat} {expected : ValueType} {v : Value} : values.length = schema.length →
      Mistyped schema values column expected v →
      Flaw schema row values (.datasetTypeMismatch row column expected v.type)

/-- A row is refused because of what is wrong with it. -/
theorem checkRow_eq_error_iff :
    checkRow schema row values = .error e ↔ Flaw schema row values e := by
  rw [checkRow]
  by_cases hlength : values.length = schema.length
  · rw [if_pos hlength, checkTypes_eq_error_iff]
    constructor
    · rintro ⟨column, expected, v, hmistyped, rfl⟩
      rw [Nat.zero_add]
      exact .type hlength hmistyped
    · intro h
      cases h with
      | width hwidth => exact absurd hlength hwidth
      | type _ hmistyped => exact ⟨_, _, _, hmistyped, by rw [Nat.zero_add]⟩
  · rw [if_neg hlength]
    constructor
    · intro h
      cases h
      exact .width hlength
    · intro h
      cases h with
      | width => rfl
      | type hwidth => exact absurd hwidth hlength

/-- Rows are refused because of what is wrong with the first one that is. -/
theorem numberRows_eq_error_iff :
    numberRows schema start rows = .error e ↔
      ∃ before values after, rows = before ++ values :: after ∧
        (∀ earlier ∈ before, earlier.map Value.type = schema) ∧
        Flaw schema (start + before.length) values e := by
  induction rows generalizing start with
  | nil => simp [numberRows]
  | cons values rows ih =>
    rw [numberRows, bind_eq_error_iff, checkRow_eq_error_iff]
    constructor
    · rintro (hflaw | ⟨_, hrow, h⟩)
      · exact ⟨[], values, rows, rfl, by simp, hflaw⟩
      · obtain h | ⟨rest, -, h⟩ := bind_eq_error_iff.mp h
        · obtain ⟨before, flawed, after, rfl, hbefore, hflaw⟩ := ih.mp h
          refine ⟨values :: before, flawed, after, rfl, ?_, ?_⟩
          · rw [List.forall_mem_cons]
            exact ⟨checkRow_eq_ok_iff.mp hrow, hbefore⟩
          · rwa [List.length_cons, Nat.add_comm before.length, ← Nat.add_assoc]
        · cases h
    · rintro ⟨before, flawed, after, hrows, hbefore, hflaw⟩
      cases before with
      | nil =>
        obtain ⟨rfl, rfl⟩ := List.cons.inj hrows
        exact .inl hflaw
      | cons first before =>
        obtain ⟨rfl, rfl⟩ := List.cons.inj hrows
        rw [List.forall_mem_cons] at hbefore
        rw [List.length_cons, Nat.add_comm before.length, ← Nat.add_assoc] at hflaw
        have hrest := ih.mpr ⟨before, flawed, after, rfl, hbefore.2, hflaw⟩
        refine .inr ⟨(), checkRow_eq_ok_iff.mpr hbefore.1, ?_⟩
        rw [hrest, error_bind]

/-- Rows make no dataset because of what is wrong with the first one that is refused. -/
theorem ofRows_eq_error_iff :
    ofRows schema rows = .error e ↔ ∃ before values after, rows = before ++ values :: after ∧
      (∀ earlier ∈ before, earlier.map Value.type = schema) ∧
      Flaw schema before.length values e := by
  have hnumber : numberRows schema 0 rows = .error e ↔ _ := numberRows_eq_error_iff
  simp only [Nat.zero_add] at hnumber
  rw [← hnumber, ofRows]
  cases numberRows schema 0 rows <;> simp

end QueryParity.Dataset
