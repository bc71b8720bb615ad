import QueryParity.Proofs.Dataset.Rows
import QueryParity.Proofs.Session.Load

/-!
# What is written into columns is read back

A column takes the values of its type, one after the other, and no trace is left of a value that it
refuses. Since the rows of a dataset were checked, none of their values is refused when the dataset
is loaded: every column ends up with one value per row, and reading it gives the values of the rows,
nulls included.
-/

namespace QueryParity

open Outcome

namespace Column

variable {c : Column} {v : Value}

/-- A value is refused exactly if it is of another type than the column. -/
theorem push_eq_error_iff {fault : Fault} :
    (c.push v).1 = .error fault ↔
      v.type ≠ c.type ∧ fault = .typeMismatch .columnWrite c.type v.type := by
  by_cases htype : v.type = c.type
  · obtain ⟨d, hd, -⟩ := exists_push htype
    rw [hd]
    exact ⟨fun h => (by cases h), fun h => absurd htype h.1⟩
  · rw [push_of_ne htype]
    exact ⟨fun h => ⟨htype, (Except.error.inj h).symm⟩, fun h => congrArg _ h.2.symm⟩

/-- A value that is refused leaves the column as it is. -/
theorem push_of_error {fault : Fault} (h : (c.push v).1 = .error fault) : (c.push v).2 = c := by
  rw [push_of_ne (push_eq_error_iff.mp h).1]

/-- The values in the rows of a column. -/
def values (c : Column) : List Value := (List.range c.length).map c.value

/-- A value of the type of the column comes after those that were there. -/
theorem values_push (h : v.type = c.type) : (c.push v).2.values = c.values ++ [v] := by
  obtain ⟨d, hd, -, hlength, hlast, hbefore⟩ := exists_push h
  have hfirst : (List.range c.length).map d.value = (List.range c.length).map c.value :=
    List.map_congr_left fun row hrow => hbefore row (List.mem_range.mp hrow)
  rw [hd, values, values, hlength, List.range_succ, List.map_append, hfirst, List.map_singleton,
    hlast]

/-- The column after values were pushed to it one after the other, taken or refused. -/
def written (c : Column) (vs : List Value) : Column := vs.foldl (fun c v => (c.push v).2) c

/-- Pushing values leaves the type of a column, and adds exactly those of this type. -/
theorem values_written (c : Column) (vs : List Value) :
    (c.written vs).type = c.type ∧
      (c.written vs).values = c.values ++ vs.filter fun v => v.type = c.type := by
  induction vs generalizing c with
  | nil => exact ⟨rfl, (List.append_nil _).symm⟩
  | cons v vs ih =>
    obtain ⟨htype, hvalues⟩ := ih (c.push v).2
    rw [type_push] at htype hvalues
    refine ⟨htype, hvalues.trans ?_⟩
    rw [List.filter_cons]
    by_cases hv : v.type = c.type
    · rw [values_push hv, if_pos (decide_eq_true hv), List.append_assoc, List.singleton_append]
    · rw [push_of_ne hv, if_neg fun h => hv (of_decide_eq_true h)]

end Column

namespace Session

/-- A session holds a dataset by columns: there is one column per column of the dataset, of the same
type, with one value per row, and reading it gives the values of the rows. -/
structure Transposes (s : Session) (d : Dataset) : Prop where
  /-- The number of rows. -/
  rowCount_eq : s.rowCount = d.rows.length
  /-- The types of the columns. -/
  types_eq : s.columns.map Column.type = d.schema
  /-- The lengths of the columns. -/
  length_eq : ∀ c ∈ s.columns, c.length = s.rowCount
  /-- Every row of every column is read as the value that the row of the dataset has there. -/
  read_eq : ∀ row r column type, d.rows[row]? = some r → d.schema[column]? = some type →
    ∃ v, r.values[column]? = some v ∧ Column.readField s.columns column type row = .ok v

/-- A session that holds a dataset has it by columns. -/
theorem Holds.transposes {s : Session} {d : Dataset} (h : s.Holds d) : s.Transposes d where
  rowCount_eq := by rw [rowCount, h.keys_eq, List.length_map]
  types_eq := h.represents.types
  length_eq := by
    intro c hc
    rw [h.represents.length c hc, rowCount, h.keys_eq, List.length_map, List.length_map]
  read_eq := by
    intro row r column type hr htype
    have hvalues : (d.rows.map Row.values)[row]? = some r.values := by
      rw [List.getElem?_map, hr, Option.map_some]
    rw [← h.represents.types] at htype
    obtain ⟨v, hv, hread⟩ := Column.readField_eq htype row
    rw [h.represents.values row r.values hvalues] at hv
    exact ⟨v, hv, hread⟩

/-- Rows make a dataset exactly if each of them has one value per column, of the type of the column,
and otherwise the error is what is wrong with the first row that does not. A dataset is loaded into
columns that hold its rows. A column refuses the values of other types, each of which leaves it as
it is, and it holds those of its type, whatever was refused between them. -/
theorem checked_rows_are_read_back (schema : List ValueType) (rows : List (List Value)) :
    (∀ d, Dataset.ofRows schema rows = .ok d ↔
      (∀ values ∈ rows, values.map Value.type = schema) ∧
        d = ⟨schema, rows.zipIdx.map fun (values, i) => ⟨[i], values⟩⟩) ∧
    (∀ e, Dataset.ofRows schema rows = .error e ↔
      ∃ before values after, rows = before ++ values :: after ∧
        (∀ earlier ∈ before, earlier.map Value.type = schema) ∧
        Dataset.Flaw schema before.length values e) ∧
    (∀ d : Dataset, d.Built → ∃ s, load d = .ok s ∧ s.Transposes d) ∧
    ∀ (c : Column) (vs : List Value),
      (∀ v fault, (c.push v).1 = .error fault ↔
        v.type ≠ c.type ∧ fault = .typeMismatch .columnWrite c.type v.type) ∧
      (∀ v fault, (c.push v).1 = .error fault → (c.push v).2 = c) ∧
      (c.written vs).type = c.type ∧
      (c.written vs).values = c.values ++ vs.filter fun v => v.type = c.type := by
  refine ⟨fun d => Dataset.ofRows_eq_ok_iff, fun e => Dataset.ofRows_eq_error_iff, ?_, ?_⟩
  · intro d hd
    obtain ⟨s, hload, hs, -⟩ := exists_load hd.conforms
    exact ⟨s, hload, hs.transposes⟩
  · intro c vs
    exact ⟨fun v fault => Column.push_eq_error_iff, fun v fault => Column.push_of_error,
      c.values_written vs⟩

/-- Two rows with a null in each column are read back from two columns. A row with two mistyped
values is refused for the first of them, before a row behind it that is too short, and a row that is
both too short and mistyped for its width. A null of another type leaves a column of numbers as it
is, and no trace between two numbers. -/
theorem checked_rows_with_nulls_are_read_back :
    (∃ s, load ⟨[.int, .string],
        [⟨[0], [.int 1, .null .string]⟩, ⟨[1], [.null .int, .string "a"]⟩]⟩ = .ok s ∧
      s.rowCount = 2 ∧ (∀ c ∈ s.columns, c.length = 2) ∧
      Column.readField s.columns 1 .string 0 = .ok (.null .string) ∧
      Column.readField s.columns 0 .int 1 = .ok (.null .int)) ∧
    Dataset.ofRows [.int, .string]
        [[.int 1, .null .string], [.null .string, .int 2], [.int 3]] =
      .error (.datasetTypeMismatch 1 0 .int .string) ∧
    Dataset.ofRows [.int, .string] [[.bool true]] = .error (.datasetWidthMismatch 0 2 1) ∧
    ((Column.empty .int).push (.null .bool)).2 = .empty .int ∧
    ((Column.empty .int).written [.int 1, .null .bool, .int 2]).values = [.int 1, .int 2] := by
  have hrows : Dataset.ofRows [.int, .string]
      [[.int 1, .null .string], [.null .int, .string "a"]] = .ok _ := rfl
  obtain ⟨-, -, hload, hpush⟩ := checked_rows_are_read_back [] []
  obtain ⟨s, hs, htransposes⟩ := hload _ (.ofRows hrows)
  obtain ⟨v, hv, hread⟩ := htransposes.read_eq 0 _ 1 .string rfl rfl
  obtain ⟨v', hv', hread'⟩ := htransposes.read_eq 1 _ 0 .int rfl rfl
  cases hv
  cases hv'
  refine ⟨⟨s, hs, htransposes.rowCount_eq, ?_, hread, hread'⟩, ?_, ?_, ?_, ?_⟩
  · intro c hc
    rw [htransposes.length_eq c hc, htransposes.rowCount_eq]
    rfl
  · obtain ⟨-, herror, -⟩ := checked_rows_are_read_back [.int, .string]
      [[.int 1, .null .string], [.null .string, .int 2], [.int 3]]
    refine (herror _).mpr ⟨[[.int 1, .null .string]], _, [[.int 3]], rfl, by decide, ?_⟩
    exact .type (v := .null .string) rfl ⟨rfl, rfl, by decide, rfl⟩
  · obtain ⟨-, herror, -⟩ := checked_rows_are_read_back [.int, .string] [[.bool true]]
    exact (herror _).mpr ⟨[], _, [], rfl, by decide, .width (by decide)⟩
  · obtain ⟨hrefused, hkept, -⟩ := hpush (.empty .int) []
    exact hkept (.null .bool) _ ((hrefused _ _).mpr ⟨by decide, rfl⟩)
  · exact (hpush _ _).2.2.2

end Session

end QueryParity
