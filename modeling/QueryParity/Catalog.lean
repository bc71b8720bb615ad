import QueryParity.Catalog.Entry
import QueryParity.Event

/-!
# Operator catalogs

A catalog lists the operators that trees are generated from. It is looked up by result type; among
the operators of one type the order of registration is kept, so that a run from the same random
state always meets the same candidates.
-/

namespace QueryParity

/-- Accepted operators in the order of registration. -/
structure Catalog where
  /-- The operators. -/
  entries : List Catalog.Entry

namespace Catalog

/-- The catalog of the declared operators, or what is wrong with the first one that is refused. -/
def ofDescriptors (ds : List Descriptor) : Except ConfigError Catalog := do
  let entries ← ds.mapM Descriptor.accept
  .ok ⟨entries⟩

/-- All operators with two operands. -/
def binaries (c : Catalog) : List BinaryEntry :=
  c.entries.filterMap fun
    | .binary e => some e
    | .unary _ => none

/-- All operators with one operand. -/
def unaries (c : Catalog) : List UnaryEntry :=
  c.entries.filterMap fun
    | .binary _ => none
    | .unary e => some e

/-- The operators with two operands that yield a type. -/
def binariesOf (c : Catalog) (type : ValueType) : List BinaryEntry :=
  c.binaries.filter (·.result = type)

/-- The operators with one operand that yield a type. -/
def unariesOf (c : Catalog) (type : ValueType) : List UnaryEntry :=
  c.unaries.filter (·.result = type)

/-- The operators whose only operand has a type, sorted by the type that they yield. -/
def unariesAccepting (c : Catalog) (type : ValueType) : List UnaryEntry :=
  (ValueType.all.flatMap c.unariesOf).filter (·.input = type)

/-- The operators that yield a type, those with two operands first. -/
def operatorsOf (c : Catalog) (type : ValueType) : List Entry :=
  (c.binariesOf type).map .binary ++ (c.unariesOf type).map .unary

/-- Number of operators that yield a type. -/
def countOf (c : Catalog) (type : ValueType) : Nat := (c.operatorsOf type).length

/-- The operator with the given number among those that yield a type. -/
def nthOf? (c : Catalog) (type : ValueType) (n : Nat) : Option Entry := (c.operatorsOf type)[n]?

/-- Every type of an operand or a result, sorted. -/
def valueTypes (c : Catalog) : List ValueType :=
  ValueType.all.filter fun type => c.entries.any (·.mentions type)

/-- There is an operator with a number exactly below the number of operators. -/
theorem nthOf?_isSome_iff {c : Catalog} {type : ValueType} {n : Nat} :
    (c.nthOf? type n).isSome ↔ n < c.countOf type := by
  simp [nthOf?, countOf]

/-- Every operator that yields a type is registered with that type. -/
theorem mem_operatorsOf {c : Catalog} {type : ValueType} {e : Entry} :
    e ∈ c.operatorsOf type ↔ e ∈ c.entries ∧ e.result = type := by
  cases e <;> simp [operatorsOf, binariesOf, unariesOf, binaries, unaries, Entry.result] <;> grind

/-- A type is listed exactly if an operator mentions it. -/
theorem mem_valueTypes {c : Catalog} {type : ValueType} :
    type ∈ c.valueTypes ↔ ∃ e ∈ c.entries, e.mentions type := by
  simp [valueTypes]

/-- Put a catalog together and report its size. -/
def assemble (ds : List Descriptor) : Logged Event (Except ConfigError Catalog) :=
  .ofExcept (ofDescriptors ds) fun c => .catalogReady c.binaries.length c.unaries.length

end Catalog

end QueryParity
