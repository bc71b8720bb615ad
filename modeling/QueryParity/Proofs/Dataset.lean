import QueryParity.Proofs.Outcome
import QueryParity.SeedData

/-!
# Datasets conform to their schemas

A dataset is made of rows that were checked, or by a cross join of entities of the types asked for.
Either way every row has one value per column, of the type of the column.
-/

namespace QueryParity.Dataset

open Outcome

/-- The types of a row of the right width are accepted exactly if they are those of the schema. -/
theorem checkTypes_eq_ok_iff {row column : Nat} {schema : List ValueType} {values : List Value}
    (hlen : values.length = schema.length) :
    checkTypes row column schema values = .ok () ↔ values.map Value.type = schema := by
  induction values generalizing column schema with
  | nil =>
    obtain rfl : schema = [] := List.length_eq_zero_iff.mp hlen.symm
    simp [checkTypes]
  | cons v values ih =>
    cases schema with
    | nil => cases hlen
    | cons expected schema =>
      rw [List.length_cons, List.length_cons, Nat.add_right_cancel_iff] at hlen
      rw [checkTypes, List.map_cons, List.cons.injEq]
      by_cases hv : v.type = expected
      · rw [if_pos hv, ih hlen]
        simp [hv]
      · rw [if_neg hv]
        simp [hv]

/-- A row is accepted exactly if it has one value per column, of the type of the column. -/
theorem checkRow_eq_ok_iff {row : Nat} {schema : List ValueType} {values : List Value} :
    checkRow schema row values = .ok () ↔ values.map Value.type = schema := by
  rw [checkRow]
  by_cases hlen : values.length = schema.length
  · rw [if_pos hlen, checkTypes_eq_ok_iff hlen]
  · rw [if_neg hlen]
    refine ⟨nofun, fun h => absurd ?_ hlen⟩
    rw [← h, List.length_map]

/-- Rows are accepted exactly if each of them is, and they are numbered in their order. -/
theorem numberRows_eq_ok_iff {schema : List ValueType} {start : Nat} {rows : List (List Value)}
    {numbered : List Row} :
    numberRows schema start rows = .ok numbered ↔
      (∀ values ∈ rows, values.map Value.type = schema) ∧
        numbered = (rows.zipIdx start).map fun (values, i) => ⟨[i], values⟩ := by
  induction rows generalizing start numbered with
  | nil => simp [numberRows, eq_comm]
  | cons values rows ih =>
    simp only [numberRows, bind_eq_ok_iff, ih, List.forall_mem_cons, List.zipIdx_cons,
      List.map_cons]
    constructor
    · rintro ⟨_, hrow, rest, ⟨hrows, rfl⟩, h⟩
      cases h
      exact ⟨⟨checkRow_eq_ok_iff.mp hrow, hrows⟩, rfl⟩
    · rintro ⟨⟨hrow, hrows⟩, rfl⟩
      exact ⟨(), checkRow_eq_ok_iff.mpr hrow, _, ⟨hrows, rfl⟩, rfl⟩

/-- Rows make a dataset exactly if each of them has one value per column, of the type of the
column. -/
theorem ofRows_eq_ok_iff {schema : List ValueType} {rows : List (List Value)} {d : Dataset} :
    ofRows schema rows = .ok d ↔ (∀ values ∈ rows, values.map Value.type = schema) ∧
      d = ⟨schema, rows.zipIdx.map fun (values, i) => ⟨[i], values⟩⟩ := by
  simp only [ofRows, bind_eq_ok_iff, numberRows_eq_ok_iff, Except.ok.injEq]
  constructor
  · rintro ⟨numbered, ⟨hrows, rfl⟩, rfl⟩
    exact ⟨hrows, rfl⟩
  · rintro ⟨hrows, rfl⟩
    exact ⟨_, ⟨hrows, rfl⟩, rfl⟩

/-- A combination takes one value of each table. -/
theorem types_of_mem_combinations {seed : SeedData} {columns : List ValueType} {r : Row}
    (h : r ∈ combinations (columns.map seed.table)) : r.values.map Value.type = columns := by
  induction columns generalizing r with
  | nil =>
    obtain rfl := List.mem_singleton.mp h
    rfl
  | cons type columns ih =>
    simp only [List.map_cons, combinations, List.mem_flatMap, List.mem_map] at h
    obtain ⟨⟨v, i⟩, hv, rest, hrest, rfl⟩ := h
    have htable : v ∈ seed.table type := List.fst_mem_of_mem_zipIdx hv
    have htype : v.type = type := of_decide_eq_true (List.mem_filter.mp htable).2
    rw [List.map_cons, htype, ih hrest]

/-- A dataset as there can be: of checked rows, or a cross join of seed data. -/
inductive Built : Dataset → Prop where
  /-- From rows. -/
  | ofRows {schema : List ValueType} {rows : List (List Value)} {d : Dataset} :
      Dataset.ofRows schema rows = .ok d → Built d
  /-- From seed data. -/
  | crossJoin {seed : SeedData} {columns : List ValueType} {d : Dataset} :
      Dataset.crossJoin seed columns = .ok d → Built d

/-- A cross join that succeeds has the columns asked for and every combination of their entities. -/
theorem eq_of_crossJoin {seed : SeedData} {columns : List ValueType} {d : Dataset}
    (h : Dataset.crossJoin seed columns = .ok d) :
    d = ⟨columns, combinations (columns.map seed.table)⟩ := by
  unfold Dataset.crossJoin at h
  split at h
  · cases h
  · exact (Except.ok.inj h).symm

/-- A cross join that succeeds has an entity for every column. -/
theorem table_ne_nil_of_crossJoin {seed : SeedData} {columns : List ValueType} {d : Dataset}
    (h : Dataset.crossJoin seed columns = .ok d) : ∀ type ∈ columns, seed.table type ≠ [] := by
  unfold Dataset.crossJoin at h
  split at h
  · cases h
  · rename_i hnone
    intro type htype hempty
    exact List.find?_eq_none.mp hnone type htype (List.isEmpty_iff.mpr hempty)

/-- A cross join succeeds if there is an entity for every column. -/
theorem crossJoin_eq_ok {seed : SeedData} {columns : List ValueType}
    (h : ∀ type ∈ columns, seed.table type ≠ []) :
    Dataset.crossJoin seed columns = .ok ⟨columns, combinations (columns.map seed.table)⟩ := by
  have hnone : columns.find? (fun type => (seed.table type).isEmpty) = none := by
    rw [List.find?_eq_none]
    intro type htype hempty
    exact h type htype (List.isEmpty_iff.mp hempty)
  rw [Dataset.crossJoin, hnone]

/-- A cross join fails because of the first column of whose type there is no entity. -/
theorem crossJoin_eq_error_iff {seed : SeedData} {columns : List ValueType} {e : ConfigError} :
    Dataset.crossJoin seed columns = .error e ↔
      ∃ before type after, columns = before ++ type :: after ∧
        (∀ earlier ∈ before, seed.table earlier ≠ []) ∧ seed.table type = [] ∧
        e = .emptySeedTable type := by
  rw [Dataset.crossJoin]
  constructor
  · intro h
    split at h
    · rename_i type hfound
      cases h
      obtain ⟨hempty, before, after, hcolumns, hearlier⟩ := List.find?_eq_some_iff_append.mp hfound
      refine ⟨before, type, after, hcolumns, fun earlier hmem hnil => ?_,
        List.isEmpty_iff.mp hempty, rfl⟩
      have hnot := hearlier earlier hmem
      rw [hnil] at hnot
      cases hnot
    · cases h
  · rintro ⟨before, type, after, rfl, hearlier, hempty, rfl⟩
    have hfound : (before ++ type :: after).find? (fun type => (seed.table type).isEmpty) =
        some type := by
      refine List.find?_eq_some_iff_append.mpr
        ⟨List.isEmpty_iff.mpr hempty, before, after, rfl, fun earlier hmem => ?_⟩
      rw [Bool.not_eq_true', List.isEmpty_eq_false_iff]
      exact hearlier earlier hmem
    rw [hfound]

/-- A cross join fails because there is no entity of the type of some column. -/
theorem exists_emptySeedTable_of_crossJoin {seed : SeedData} {columns : List ValueType}
    {e : ConfigError} (h : Dataset.crossJoin seed columns = .error e) :
    ∃ type ∈ columns, e = .emptySeedTable type ∧ seed.table type = [] := by
  obtain ⟨before, type, after, rfl, -, hempty, he⟩ := crossJoin_eq_error_iff.mp h
  exact ⟨type, List.mem_append_cons_self, he, hempty⟩

/-- Every row of a dataset conforms to its schema. -/
theorem Built.conforms {d : Dataset} (h : Built d) : d.Conforms := by
  cases h with
  | ofRows h =>
    obtain ⟨hrows, rfl⟩ := ofRows_eq_ok_iff.mp h
    intro r hr
    obtain ⟨⟨values, i⟩, hnumbered, rfl⟩ := List.mem_map.mp hr
    exact hrows values (List.fst_mem_of_mem_zipIdx hnumbered)
  | crossJoin h =>
    rw [eq_of_crossJoin h]
    exact fun r hr => types_of_mem_combinations hr

end QueryParity.Dataset
