import Mathlib.Algebra.Order.BigOperators.Group.List
import Mathlib.Algebra.Order.BigOperators.GroupWithZero.List
import Mathlib.Algebra.Order.Ring.Nat
import QueryParity.Proofs.Dataset.CrossJoin
import QueryParity.Proofs.Fuzzer

/-!
# Counting the rows of a cross join

The rows are counted in a machine word, as the product of the lengths of the tables. As no table is
empty, the count breaks off exactly if the whole product is too large. The settings bound the number
of tables by the number of indices only, so they do not keep the product within the word: with four
entities in each table, 31 root slots can be counted and 32 cannot.
-/

namespace QueryParity.Dataset

variable {seed : SeedData} {columns : List ValueType}

/-- The number of ways to take one entity for every column. -/
def rowCount (seed : SeedData) (columns : List ValueType) : Nat :=
  (columns.map fun type => (seed.table type).length).prod

/-- A product of positive counts breaks off exactly if the whole product is too large for a machine
word. -/
theorem product?_eq {counts : List Nat} (hpos : ∀ count ∈ counts, 0 < count) :
    product? counts =
      if counts.prod < UInt64.size then some counts.prod.toUInt64 else none := by
  -- the induction starts from any product that fits
  suffices hbegun : ∀ begun < UInt64.size, counts.foldlM (fun (product : UInt64) count =>
      if product.toNat * count < UInt64.size then some (product.toNat * count).toUInt64 else none)
        begun.toUInt64 =
      if begun * counts.prod < UInt64.size then some (begun * counts.prod).toUInt64 else none by
    have hone := hbegun 1 (by decide)
    rwa [Nat.one_mul] at hone
  induction counts with
  | nil => simp +contextual
  | cons count counts ih =>
    intro begun hbegun
    rw [List.forall_mem_cons] at hpos
    have htoNat : begun.toUInt64.toNat = begun := UInt64.toNat_ofNat_of_lt hbegun
    rw [List.foldlM_cons, htoNat, List.prod_cons, ← Nat.mul_assoc]
    by_cases hnext : begun * count < UInt64.size
    · rw [if_pos hnext]
      exact ih hpos.2 _ hnext
    · have hmore : begun * count ≤ begun * count * counts.prod :=
        Nat.le_mul_of_pos_right _ (List.prod_pos hpos.2)
      rw [if_neg hnext, if_neg (by omega)]
      rfl

/-- The lengths of the tables of some columns are positive if no table is empty. -/
theorem length_table_pos (htables : ∀ type ∈ columns, seed.table type ≠ []) :
    ∀ count ∈ columns.map fun type => (seed.table type).length, 0 < count := by
  intro count hcount
  obtain ⟨type, htype, rfl⟩ := List.mem_map.mp hcount
  exact List.length_pos_iff.mpr (htables type htype)

/-- Rows that a machine word can count are counted, and there are as many in the cross join. -/
theorem capacity?_eq_some (htables : ∀ type ∈ columns, seed.table type ≠ [])
    (hfits : rowCount seed columns < UInt64.size) :
    ∃ n, capacity? seed columns = some n ∧ n.toNat = rowCount seed columns ∧
      ∃ d, crossJoin seed columns = .ok d ∧ d.rows.length = n.toNat := by
  have htoNat : (rowCount seed columns).toUInt64.toNat = rowCount seed columns :=
    UInt64.toNat_ofNat_of_lt hfits
  refine ⟨(rowCount seed columns).toUInt64, ?_, htoNat, _, crossJoin_eq_ok htables, ?_⟩
  · rw [capacity?, product?_eq (length_table_pos htables)]
    exact if_pos hfits
  · rw [length_combinations, List.map_map, htoNat]
    rfl

/-- The count of the rows breaks off exactly if no table is empty and the rows are too many for a
machine word. -/
theorem overflows_iff :
    overflows seed columns = true ↔
      (∀ type ∈ columns, seed.table type ≠ []) ∧ UInt64.size ≤ rowCount seed columns := by
  have hcapacity (htables : ∀ type ∈ columns, seed.table type ≠ []) :
      capacity? seed columns = none ↔ UInt64.size ≤ rowCount seed columns := by
    rw [capacity?, product?_eq (length_table_pos htables), ← Nat.not_lt]
    exact ite_eq_right_iff.trans (by simp [rowCount])
  rw [overflows, Bool.and_eq_true, List.all_eq_true, Option.isNone_iff_eq_none]
  simp only [Bool.not_eq_true', List.isEmpty_eq_false_iff]
  exact and_congr_right hcapacity

/-- Building a cross join breaks off exactly if no table is empty and the rows are too many for a
machine word. -/
theorem crossJoin?_eq_none_iff :
    crossJoin? seed columns = none ↔
      (∀ type ∈ columns, seed.table type ≠ []) ∧ UInt64.size ≤ rowCount seed columns := by
  rw [← overflows_iff, crossJoin?_eq, ite_eq_left_iff]
  simp

/-- Tables of at most some entities allow no more rows than a power of their number. -/
theorem rowCount_le_pow {bound : Nat}
    (hbound : ∀ type ∈ columns, (seed.table type).length ≤ bound) :
    rowCount seed columns ≤ bound ^ columns.length := by
  have hprod := List.prod_le_pow_card (columns.map fun type => (seed.table type).length) bound
    (List.forall_mem_map.mpr hbound)
  rwa [List.length_map] at hprod

/-- Tables of equal length allow as many rows as a power of their length. -/
theorem rowCount_eq_pow {length : Nat}
    (hlength : ∀ type ∈ columns, (seed.table type).length = length) :
    rowCount seed columns = length ^ columns.length := by
  have hprod := List.prod_eq_pow_card (columns.map fun type => (seed.table type).length) length
    (List.forall_mem_map.mpr hlength)
  rwa [List.length_map] at hprod

end QueryParity.Dataset

namespace QueryParity.Fuzzer

open Outcome

variable {config : Config} {catalog : Catalog} {constants : ConstantPool} {seedData : SeedData}

/-- Assembly with accepted settings breaks off exactly if the cross join does. -/
theorem overflows_eq (hvalid : config.validate = .ok ())
    (hconstants : constants.validateFor catalog = .ok ()) :
    overflows config catalog constants seedData =
      Dataset.overflows seedData config.rootTypes := by
  obtain ⟨-, -, hlength, -⟩ := Config.validate_eq_ok_iff.mp hvalid
  rw [overflows, prepare, hvalid, hconstants, ok_bind, ok_bind, RootSlots.ofTypes, if_pos hlength]
  rfl

/-- With accepted settings and literals, assembly has no result exactly if building the cross join
has none. -/
theorem assemble?_eq_none_iff (hvalid : config.validate = .ok ())
    (hconstants : constants.validateFor catalog = .ok ()) :
    assemble? config catalog constants seedData = none ↔
      Dataset.crossJoin? seedData config.rootTypes = none := by
  rw [assemble?, overflows_eq hvalid hconstants, Dataset.crossJoin?_eq, ite_eq_left_iff,
    ite_eq_left_iff]
  simp

/-- With accepted settings and one to four entities in the table of every root type, assembly
breaks off exactly if there are more ways to take an entity for every root slot than a machine word
can count. Otherwise the count is the number of rows of the cross join. All ways are counted for up
to 31 root slots, and from 32 root slots on they cannot be counted if every table is full. -/
theorem accepted_settings_overflow_beyond_31_slots (hvalid : config.validate = .ok ())
    (hconstants : constants.validateFor catalog = .ok ())
    (htables : ∀ type ∈ config.rootTypes,
      seedData.table type ≠ [] ∧ (seedData.table type).length ≤ 4) :
    (overflows config catalog constants seedData = true ↔
        UInt64.size ≤ Dataset.rowCount seedData config.rootTypes) ∧
      (overflows config catalog constants seedData = false →
        ∃ n, Dataset.capacity? seedData config.rootTypes = some n ∧
          n.toNat = Dataset.rowCount seedData config.rootTypes ∧
          ∃ d, Dataset.crossJoin seedData config.rootTypes = .ok d ∧ d.rows.length = n.toNat) ∧
      (config.rootTypes.length ≤ 31 → overflows config catalog constants seedData = false) ∧
      ((∀ type ∈ config.rootTypes, (seedData.table type).length = 4) →
        32 ≤ config.rootTypes.length → overflows config catalog constants seedData = true) := by
  have hfilled : ∀ type ∈ config.rootTypes, seedData.table type ≠ [] :=
    fun type htype => (htables type htype).1
  have hiff : overflows config catalog constants seedData = true ↔
      UInt64.size ≤ Dataset.rowCount seedData config.rootTypes := by
    rw [overflows_eq hvalid hconstants, Dataset.overflows_iff]
    exact and_iff_right hfilled
  have hfits : overflows config catalog constants seedData = false ↔
      Dataset.rowCount seedData config.rootTypes < UInt64.size := by
    rw [← Bool.not_eq_true, hiff, Nat.not_le]
  refine ⟨hiff, fun hcounted => ?_, fun hfew => ?_, fun hfull hmany => ?_⟩
  · exact Dataset.capacity?_eq_some hfilled (hfits.mp hcounted)
  · refine hfits.mpr ?_
    calc Dataset.rowCount seedData config.rootTypes
        ≤ 4 ^ config.rootTypes.length :=
          Dataset.rowCount_le_pow fun type htype => (htables type htype).2
      _ ≤ 4 ^ 31 := Nat.pow_le_pow_right (by decide) hfew
      _ < UInt64.size := by decide
  · refine hiff.mpr ?_
    calc UInt64.size = 4 ^ 32 := by decide
      _ ≤ 4 ^ config.rootTypes.length := Nat.pow_le_pow_right (by decide) hmany
      _ = Dataset.rowCount seedData config.rootTypes := (Dataset.rowCount_eq_pow hfull).symm

/-- The standard settings with so many integer slots. -/
def integerSlots (n : Nat) : Config := { Config.standard with rootTypes := List.replicate n .int }

/-- There are four standard integers. -/
theorem length_table_integerSlots {n : Nat} :
    ∀ type ∈ (integerSlots n).rootTypes, (SeedData.standard.table type).length = 4 := by
  intro type htype
  obtain rfl := List.eq_of_mem_replicate htype
  decide

/-- The table of the standard integers is neither empty nor too large. -/
theorem table_integerSlots {n : Nat} : ∀ type ∈ (integerSlots n).rootTypes,
    SeedData.standard.table type ≠ [] ∧ (SeedData.standard.table type).length ≤ 4 := by
  intro type htype
  have hlength := length_table_integerSlots type htype
  exact ⟨List.length_pos_iff.mp (by omega), by omega⟩

/-- The rows over 31 integer slots are counted. -/
theorem rows_over_31_integer_slots_are_counted :
    (integerSlots 31).validate = .ok () ∧
      (∀ catalog, overflows (integerSlots 31) catalog .standard .standard = false) ∧
      Dataset.capacity? .standard (integerSlots 31).rootTypes = some 4611686018427387904 := by
  have hvalid : (integerSlots 31).validate = .ok () := by decide
  have hslots (catalog : Catalog) :=
    accepted_settings_overflow_beyond_31_slots hvalid (validateFor_standard catalog)
      table_integerSlots
  have hcounted (catalog : Catalog) :
      overflows (integerSlots 31) catalog .standard .standard = false :=
    (hslots catalog).2.2.1 (by decide)
  obtain ⟨n, hn, hcount, -⟩ := (hslots ⟨[]⟩).2.1 (hcounted ⟨[]⟩)
  refine ⟨hvalid, hcounted, hn.trans (congrArg some (UInt64.toNat_inj.mp ?_))⟩
  rw [hcount, Dataset.rowCount_eq_pow length_table_integerSlots]
  decide

/-- Accepted settings with 32 integer slots make the assembly over the four standard integers break
off: there are as many rows as a machine word has values. -/
theorem accepted_settings_can_overflow :
    (integerSlots 32).validate = .ok () ∧
      (∀ type ∈ (integerSlots 32).rootTypes,
        SeedData.standard.table type ≠ [] ∧ (SeedData.standard.table type).length ≤ 4) ∧
      ¬ Dataset.rowCount .standard (integerSlots 32).rootTypes < UInt64.size ∧
      ∀ catalog, overflows (integerSlots 32) catalog .standard .standard = true := by
  have hvalid : (integerSlots 32).validate = .ok () := by decide
  have hcount : Dataset.rowCount .standard (integerSlots 32).rootTypes = UInt64.size := by
    rw [Dataset.rowCount_eq_pow length_table_integerSlots]
    decide
  refine ⟨hvalid, table_integerSlots, by omega, fun catalog => ?_⟩
  rw [overflows_eq hvalid (validateFor_standard catalog), Dataset.overflows_iff]
  exact ⟨fun type htype => (table_integerSlots type htype).1, hcount.ge⟩

end QueryParity.Fuzzer
