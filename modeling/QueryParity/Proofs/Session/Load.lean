import QueryParity.Proofs.Dataset
import QueryParity.Proofs.Program.Correctness
import QueryParity.Session

/-!
# Loading turns rows into columns

Rows that conform to the schema are appended to the columns one after the other. Each of them
extends every column by one value and leaves the rows before it as they are, so that in the end the
columns hold exactly the rows of the dataset.
-/

namespace QueryParity

open Outcome

/-- A value of the column's type can be appended: it becomes the value in the last row, and the
other rows keep theirs. -/
theorem Column.exists_push {c : Column} {v : Value} (h : v.type = c.type) :
    ∃ d, c.push v = (.ok (), d) ∧ d.type = c.type ∧ d.length = c.length + 1 ∧
      d.value c.length = v ∧ ∀ row < c.length, d.value row = c.value row := by
  obtain ⟨x, hx⟩ := Option.isSome_iff_exists.mp (Value.content?_isSome_iff.mpr h)
  have hpush : c.push v = (.ok (), ⟨c.type, c.cells.push x⟩) := by rw [push, hx]
  refine ⟨_, hpush, rfl, Array.size_push _, ?_, fun row hrow => ?_⟩
  · rw [value, length, Array.getElem?_push_size]
    exact Value.ofContent_of_content? hx
  · have hne : row ≠ c.cells.size := Nat.ne_of_lt hrow
    rw [value, value, Array.getElem?_push, if_neg hne]

namespace Session

/-- A row of the right types can be appended to columns of one length. -/
theorem exists_pushRow {columns : List Column} {values : List Value} {length : Nat}
    (htypes : values.map Value.type = columns.map Column.type)
    (hlength : ∀ c ∈ columns, c.length = length) (row column : Nat) :
    ∃ longer, pushRow row column columns values = .ok longer ∧
      longer.map Column.type = columns.map Column.type ∧ (∀ c ∈ longer, c.length = length + 1) ∧
      Column.rowValues longer length = values ∧
      ∀ r < length, Column.rowValues longer r = Column.rowValues columns r := by
  induction columns generalizing values column with
  | nil =>
    obtain rfl : values = [] := List.map_eq_nil_iff.mp htypes
    exact ⟨[], rfl, rfl, by simp, rfl, fun _ _ => rfl⟩
  | cons c columns ih =>
    cases values with
    | nil => cases htypes
    | cons v values =>
      obtain ⟨hv, htypes⟩ := List.cons.inj htypes
      rw [List.forall_mem_cons] at hlength
      obtain ⟨rfl, hlength⟩ := hlength
      obtain ⟨d, hd, hdtype, hdlength, hlast, hbefore⟩ := Column.exists_push hv
      obtain ⟨rest, hrest, hrtypes, hrlength, hrlast, hrbefore⟩ := ih htypes hlength (column + 1)
      refine ⟨d :: rest, ?_, ?_, ?_, ?_, fun r hr => ?_⟩
      · rw [pushRow, hd]
        simp only [hrest, ok_bind]
      · rw [List.map_cons, List.map_cons, hdtype, hrtypes]
      · rw [List.forall_mem_cons]
        exact ⟨hdlength, hrlength⟩
      · change d.value c.length :: Column.rowValues rest c.length = v :: values
        rw [hlast, hrlast]
      · change d.value r :: Column.rowValues rest r = c.value r :: Column.rowValues columns r
        rw [hbefore r hr, hrbefore r hr]

/-- The columns have the types of the schema and hold exactly the rows. -/
structure Represents (schema : List ValueType) (columns : List Column) (rows : List (List Value)) :
    Prop where
  /-- The types. -/
  types : columns.map Column.type = schema
  /-- One value per row. -/
  length : ∀ c ∈ columns, c.length = rows.length
  /-- The values of each row. -/
  values : ∀ row values, rows[row]? = some values → Column.rowValues columns row = values

/-- Empty columns hold no row. -/
theorem represents_empty (schema : List ValueType) :
    Represents schema (schema.map Column.empty) [] where
  types := by
    rw [List.map_map]
    exact List.map_id schema
  length := by
    intro c hc
    obtain ⟨type, -, rfl⟩ := List.mem_map.mp hc
    rfl
  values := nofun

/-- Appending a conforming row to columns appends it to the rows that they hold. -/
theorem Represents.exists_pushRow {schema : List ValueType} {columns : List Column}
    {rows : List (List Value)} (h : Represents schema columns rows) {values : List Value}
    (hvalues : values.map Value.type = schema) (row : Nat) :
    ∃ longer, pushRow row 0 columns values = .ok longer ∧
      Represents schema longer (rows ++ [values]) := by
  obtain ⟨longer, hpush, htypes, hlength, hlast, hbefore⟩ :=
    Session.exists_pushRow (hvalues.trans h.types.symm) h.length row 0
  refine ⟨longer, hpush, htypes.trans h.types, ?_, fun r vs hr => ?_⟩
  · rwa [List.length_append, List.length_singleton]
  · by_cases hlt : r < rows.length
    · rw [List.getElem?_append_left hlt] at hr
      rw [hbefore r hlt, h.values r vs hr]
    · have hr' : r = rows.length ∧ vs = values := by
        rw [List.getElem?_append_right (Nat.le_of_not_lt hlt), List.getElem?_singleton] at hr
        obtain ⟨hzero, hvs⟩ := Option.ite_none_right_eq_some.mp hr
        exact ⟨by omega, (Option.some.inj hvs).symm⟩
      rw [hr'.1, hr'.2, hlast]

/-- Appending conforming rows appends them to the rows that the columns hold. -/
theorem Represents.exists_pushRows {schema : List ValueType} {columns : List Column}
    {before : List (List Value)} (h : Represents schema columns before) {rows : List Row}
    (hrows : ∀ r ∈ rows, r.values.map Value.type = schema) (start : Nat) :
    ∃ longer, pushRows start columns rows = .ok longer ∧
      Represents schema longer (before ++ rows.map Row.values) := by
  induction rows generalizing columns before start with
  | nil => exact ⟨columns, rfl, by rwa [List.map_nil, List.append_nil]⟩
  | cons r rows ih =>
    rw [List.forall_mem_cons] at hrows
    obtain ⟨longer, hpush, hlonger⟩ := h.exists_pushRow hrows.1 start
    obtain ⟨last, hlast, hrest⟩ := ih hlonger hrows.2 (start + 1)
    refine ⟨last, ?_, ?_⟩
    · rw [pushRows, hpush, ok_bind, hlast]
    · rwa [List.append_assoc, List.singleton_append] at hrest

/-- The data of a session are those of the dataset. -/
structure Holds (s : Session) (d : Dataset) : Prop where
  /-- The schema. -/
  schema_eq : s.schema = d.schema
  /-- The keys. -/
  keys_eq : s.keys = d.rows.map Row.key
  /-- The rows. -/
  represents : Represents d.schema s.columns (d.rows.map Row.values)

/-- A dataset whose rows conform to its schema is loaded into a session that holds it. -/
theorem exists_load {d : Dataset} (h : d.Conforms) :
    ∃ s, load d = .ok s ∧ s.Holds d ∧ s.queries = 0 := by
  obtain ⟨columns, hpush, hcolumns⟩ := (represents_empty d.schema).exists_pushRows h 0
  refine ⟨⟨d.schema, columns, d.rows.map Row.key, [], 0⟩, ?_, ⟨rfl, rfl, hcolumns⟩, rfl⟩
  rw [load, hpush, ok_bind]

end Session

end QueryParity
