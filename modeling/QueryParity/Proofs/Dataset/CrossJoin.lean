import Mathlib.Algebra.BigOperators.Group.List.Basic
import Mathlib.Data.List.Forall2
import QueryParity.Proofs.Dataset.Keys

/-!
# Cross joins enumerate the entities

A cross join has one row for every way to take one entity from each table. The key of a row is made
of the numbers of its entities. The keys come in the order in which an odometer counts: the last
number goes up first, and a number that has reached the end of its table starts again from zero and
carries over to the one before it. The odometer starts with zeros and stops when the first number
would carry over.
-/

namespace QueryParity.Dataset

open Outcome

/-- The next key, and whether the first number carries over. Every number but the last one goes up
only if the one after it carries over. -/
def advance : (lengths : List Nat) → RowKey → RowKey × Bool
  | length :: lengths, id :: key =>
    match advance lengths key with
    | (next, false) => (id :: next, false)
    | (next, true) => if id + 1 < length then ((id + 1) :: next, false) else (0 :: next, true)
  | _, _ => ([], true)

/-- The odometer counts through the keys, from the first of them until it carries over. -/
inductive CountsThrough (lengths : List Nat) : List RowKey → Prop where
  /-- The last key carries over. -/
  | last {key next : RowKey} : advance lengths key = (next, true) → CountsThrough lengths [key]
  /-- The next key follows. -/
  | step {key next : RowKey} {keys : List RowKey} : advance lengths key = (next, false) →
      CountsThrough lengths (next :: keys) → CountsThrough lengths (key :: next :: keys)

/-- The key of zeros. -/
def zeroKey (lengths : List Nat) : RowKey := List.replicate lengths.length 0

/-- An odometer that carries over shows zeros. -/
theorem eq_zeroKey_of_advance {lengths : List Nat} {key next : RowKey}
    (h : advance lengths key = (next, true)) (hlength : key.length = lengths.length) :
    next = zeroKey lengths := by
  induction lengths generalizing key next with
  | nil =>
    cases h
    rfl
  | cons length lengths ih =>
    cases key with
    | nil => cases hlength
    | cons id key =>
      rw [advance] at h
      split at h
      · cases h
      · rename_i tail htail
        split at h
        · cases h
        · cases h
          rw [ih htail (Nat.succ.inj hlength)]
          rfl

variable {length : Nat} {lengths : List Nat} {keys : List RowKey} {id : Nat}

/-- The odometer counts through the keys behind the last number of a table, and then it stops. -/
theorem CountsThrough.cons_last (h : CountsThrough lengths keys) (hid : ¬ id + 1 < length) :
    CountsThrough (length :: lengths) (keys.map (id :: ·)) := by
  induction h with
  | last hnext =>
    apply CountsThrough.last
    rw [advance, hnext]
    exact if_neg hid
  | step hnext _ ih =>
    refine .step ?_ ih
    rw [advance, hnext]

/-- The odometer counts through the keys behind another number, and then it goes on with the next
number and zeros. -/
theorem CountsThrough.cons_append (h : CountsThrough lengths keys)
    (hkeys : ∀ key ∈ keys, key.length = lengths.length) (hid : id + 1 < length)
    {later : List RowKey}
    (hlater : CountsThrough (length :: lengths) (((id + 1) :: zeroKey lengths) :: later)) :
    CountsThrough (length :: lengths)
      (keys.map (id :: ·) ++ ((id + 1) :: zeroKey lengths) :: later) := by
  induction h with
  | last hnext =>
    have hzero := eq_zeroKey_of_advance hnext (hkeys _ List.mem_cons_self)
    refine .step ?_ hlater
    rw [advance, hnext, ← hzero]
    exact if_pos hid
  | step hnext _ ih =>
    rw [List.forall_mem_cons] at hkeys
    refine .step ?_ (ih hkeys.2)
    rw [advance, hnext]

/-- The odometer counts through the keys behind all numbers of a table, from a number on. -/
theorem CountsThrough.exists_flatMap {rest : List RowKey}
    (h : CountsThrough lengths (zeroKey lengths :: rest))
    (hkeys : ∀ key ∈ zeroKey lengths :: rest, key.length = lengths.length) {table : List Value}
    (htable : table ≠ []) {start : Nat} (hlength : length = start + table.length) :
    ∃ later, ((table.zipIdx start).flatMap fun entity =>
        (zeroKey lengths :: rest).map (entity.2 :: ·)) = (start :: zeroKey lengths) :: later ∧
      CountsThrough (length :: lengths) ((start :: zeroKey lengths) :: later) := by
  induction table generalizing start with
  | nil => exact absurd rfl htable
  | cons v table ih =>
    rw [List.length_cons] at hlength
    rw [List.zipIdx_cons, List.flatMap_cons]
    by_cases hlast : table = []
    · subst hlast
      have hid : ¬ start + 1 < length := by
        rw [hlength]
        exact Nat.lt_irrefl _
      exact ⟨rest.map (start :: ·), List.append_nil _, h.cons_last hid⟩
    · have hpos := List.length_pos_iff.mpr hlast
      have hid : start + 1 < length := by omega
      have hrest : length = start + 1 + table.length := by omega
      obtain ⟨later, heq, hlater⟩ := ih hlast hrest
      rw [heq]
      exact ⟨_, rfl, h.cons_append hkeys hid hlater⟩

/-- The keys of combinations have the numbers of the first table before the other keys. -/
theorem keys_combinations_cons (table : List Value) (tables : List (List Value)) :
    (combinations (table :: tables)).map Row.key =
      table.zipIdx.flatMap fun entity =>
        ((combinations tables).map Row.key).map (entity.2 :: ·) := by
  simp only [combinations, List.map_flatMap, List.map_map, Function.comp_def]

/-- The keys of combinations name one entity of each table. -/
theorem mem_keys_combinations {tables : List (List Value)} {key : RowKey} :
    key ∈ (combinations tables).map Row.key ↔
      List.Forall₂ (fun id table => id < table.length) key tables := by
  induction tables generalizing key with
  | nil => simp [combinations]
  | cons table tables ih =>
    rw [keys_combinations_cons, List.mem_flatMap, List.forall₂_cons_right_iff]
    constructor
    · rintro ⟨⟨v, id⟩, hentity, hkey⟩
      obtain ⟨rest, hrest, rfl⟩ := List.mem_map.mp hkey
      have hid := (List.getElem?_eq_some_iff.mp (List.mem_zipIdx_iff_getElem?.mp hentity)).1
      exact ⟨id, rest, hid, ih.mp hrest, rfl⟩
    · rintro ⟨id, rest, hid, hrest, rfl⟩
      have hentity : (table[id], id) ∈ table.zipIdx :=
        List.mem_zipIdx_iff_getElem?.mpr (List.getElem?_eq_getElem hid)
      exact ⟨_, hentity, List.mem_map_of_mem (ih.mpr hrest)⟩

/-- There are as many combinations as the product of the lengths of the tables. -/
theorem length_combinations (tables : List (List Value)) :
    (combinations tables).length = (tables.map List.length).prod := by
  induction tables with
  | nil => rfl
  | cons table tables ih =>
    have hlength : ∀ (entities : List (Value × Nat)) (rows : List Row),
        (entities.flatMap fun entity => rows.map fun r =>
          (⟨entity.2 :: r.key, entity.1 :: r.values⟩ : Row)).length =
            entities.length * rows.length := by
      intro entities rows
      simp only [List.length_flatMap, List.length_map, List.map_const', List.sum_replicate_nat]
    rw [combinations, hlength, List.length_zipIdx, ih, List.map_cons, List.prod_cons]

/-- The values of a combination are the entities that its key names. -/
theorem values_of_mem_combinations {tables : List (List Value)} {r : Row}
    (h : r ∈ combinations tables) :
    r.values.map some = List.zipWith (fun id table => table[id]?) r.key tables := by
  induction tables generalizing r with
  | nil =>
    obtain rfl := List.mem_singleton.mp h
    rfl
  | cons table tables ih =>
    obtain ⟨⟨v, id⟩, hentity, h⟩ := List.mem_flatMap.mp h
    obtain ⟨rest, hrest, rfl⟩ := List.mem_map.mp h
    rw [List.map_cons, List.zipWith_cons_cons, ih hrest, List.mem_zipIdx_iff_getElem?.mp hentity]

/-- The odometer counts through the keys of combinations, beginning with zeros. -/
theorem exists_countsThrough_combinations {tables : List (List Value)}
    (h : ∀ table ∈ tables, table ≠ []) :
    ∃ later, (combinations tables).map Row.key = zeroKey (tables.map List.length) :: later ∧
      CountsThrough (tables.map List.length) (zeroKey (tables.map List.length) :: later) := by
  induction tables with
  | nil => exact ⟨[], rfl, .last rfl⟩
  | cons table tables ih =>
    rw [List.forall_mem_cons] at h
    obtain ⟨later, hkeys, hcounts⟩ := ih h.2
    have hlengths : ∀ key ∈ zeroKey (tables.map List.length) :: later,
        key.length = (tables.map List.length).length := by
      intro key hkey
      rw [← hkeys, mem_keys_combinations] at hkey
      rw [hkey.length_eq, List.length_map]
    rw [keys_combinations_cons, hkeys]
    exact hcounts.exists_flatMap hlengths h.1 (Nat.zero_add _).symm

/-- The rows of a dataset are the ways to take one entity per column. -/
structure Enumerates (seed : SeedData) (columns : List ValueType) (d : Dataset) : Prop where
  /-- The columns. -/
  schema_eq : d.schema = columns
  /-- There is a row for every combination. -/
  length_eq : d.rows.length = (columns.map fun type => (seed.table type).length).prod
  /-- The keys are the combinations of the numbers of entities. -/
  mem_keys_iff : ∀ key, key ∈ d.rows.map Row.key ↔
    List.Forall₂ (fun id type => id < (seed.table type).length) key columns
  /-- Every key is greater than the keys before it. -/
  ascending : d.rows.Pairwise fun r r' => r.key < r'.key
  /-- The values of a row are the entities that its key names. -/
  values_eq : ∀ r ∈ d.rows,
    r.values.map some = List.zipWith (fun id type => (seed.table type)[id]?) r.key columns
  /-- An odometer counts through the keys, beginning with zeros. -/
  counted : (d.rows.map Row.key).head? = some (zeroKey (columns.map fun type =>
      (seed.table type).length)) ∧
    CountsThrough (columns.map fun type => (seed.table type).length) (d.rows.map Row.key)

/-- If every column has an entity, a cross join has one row for every way to take one entity per
column, in ascending order of the keys. Otherwise it fails because of the first column without an
entity. -/
theorem crossJoin_enumerates_entities (seed : SeedData) (columns : List ValueType) :
    ((∀ type ∈ columns, seed.table type ≠ []) →
      ∃ d, crossJoin seed columns = .ok d ∧ Enumerates seed columns d) ∧
    ∀ e, crossJoin seed columns = .error e ↔
      ∃ before type after, columns = before ++ type :: after ∧
        (∀ earlier ∈ before, seed.table earlier ≠ []) ∧ seed.table type = [] ∧
        e = .emptySeedTable type := by
  refine ⟨fun h => ⟨_, crossJoin_eq_ok h, ?_⟩, fun e => crossJoin_eq_error_iff⟩
  have htables : ∀ table ∈ columns.map seed.table, table ≠ [] := by
    rintro table htable
    obtain ⟨type, htype, rfl⟩ := List.mem_map.mp htable
    exact h type htype
  have hlengths : (columns.map seed.table).map List.length =
      columns.map fun type => (seed.table type).length := List.map_map
  obtain ⟨later, hkeys, hcounts⟩ := exists_countsThrough_combinations htables
  rw [hlengths] at hkeys hcounts
  refine ⟨rfl, ?_, fun key => ?_, ascending_combinations _, fun r hr => ?_, ?_⟩
  · rw [length_combinations, hlengths]
  · rw [mem_keys_combinations, List.forall₂_map_right_iff]
  · rw [values_of_mem_combinations hr, List.zipWith_map_right]
  · rw [hkeys]
    exact ⟨rfl, hcounts⟩

/-- Strings and integers of the standard entities, of which the third string and the fourth integer
are nulls; and without truth values and date-times, the truth values are missed first. -/
theorem crossJoin_enumerates_strings_and_integers :
    (∃ d, crossJoin .standard [.string, .int] = .ok d ∧ d.rows.length = 12 ∧
      ∃ r ∈ d.rows, r.key = [2, 3] ∧ r.values = [.null .string, .null .int]) ∧
    crossJoin ⟨[.int 1]⟩ [.int, .bool, .dateTime, .bool] = .error (.emptySeedTable .bool) := by
  constructor
  · have htables : ∀ type ∈ [ValueType.string, .int], SeedData.standard.table type ≠ [] := by decide
    obtain ⟨d, hd, henumerates⟩ :=
      (crossJoin_enumerates_entities .standard [.string, .int]).1 htables
    refine ⟨d, hd, henumerates.length_eq, ?_⟩
    have hkey : List.Forall₂ (fun id type => id < (SeedData.standard.table type).length) [2, 3]
        [.string, .int] := .cons (by decide) (.cons (by decide) .nil)
    obtain ⟨r, hr, hkey⟩ := List.mem_map.mp ((henumerates.mem_keys_iff _).mpr hkey)
    have hvalues := henumerates.values_eq r hr
    rw [hkey] at hvalues
    exact ⟨r, hr, hkey, (List.map_inj_right fun _ _ => Option.some.inj).mp hvalues⟩
  · refine ((crossJoin_enumerates_entities _ _).2 _).mpr ⟨[.int], .bool, _, rfl, ?_, rfl, rfl⟩
    decide

end QueryParity.Dataset
