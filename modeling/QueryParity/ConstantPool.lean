import QueryParity.Catalog

/-!
# Constant pools

Typed banks of literals that trees draw their constants from. Nulls are ordinary members of the
bank of their type.
-/

namespace QueryParity

/-- Literals of every type. -/
structure ConstantPool where
  /-- All literals in the order in which they were added. -/
  literals : List Value
  deriving DecidableEq, Repr, Inhabited

namespace ConstantPool

/-- No literal. -/
def empty : ConstantPool := ⟨[]⟩

/-- The literals of a type in the order in which they were added. -/
def constantsOf (p : ConstantPool) (type : ValueType) : List Value :=
  p.literals.filter (·.type = type)

/-- Add a literal to the bank of a type, which must be its own. -/
def push (p : ConstantPool) (type : ValueType) (v : Value) : Except ConfigError ConstantPool :=
  if v.type = type then .ok ⟨p.literals ++ [v]⟩
  else .error (.constantTypeMismatch type v.type)

/-- Add several literals to the bank of a type. -/
def pushAll (p : ConstantPool) (type : ValueType) (vs : List Value) :
    Except ConfigError ConstantPool :=
  vs.foldlM (fun p v => p.push type v) p

/-- A literal that was added comes last in its bank, and the other banks stay as they are. -/
theorem constantsOf_push {p q : ConstantPool} {type : ValueType} {v : Value}
    (h : p.push type v = .ok q) (other : ValueType) :
    q.constantsOf other = p.constantsOf other ++ (if type = other then [v] else []) := by
  unfold push at h
  split at h
  · rename_i hv
    cases h
    simp [constantsOf, List.filter_append, List.filter_cons, hv]
  · cases h

/-- Check that no type used by a catalog lacks literals. -/
def validateFor (p : ConstantPool) (c : Catalog) : Except ConfigError Unit :=
  match c.valueTypes.find? fun type => (p.constantsOf type).isEmpty with
  | some type => .error (.missingConstants type)
  | none => .ok ()

/-- A pool passes exactly if every type that an operator mentions has a literal. -/
theorem validateFor_eq_ok_iff {p : ConstantPool} {c : Catalog} :
    p.validateFor c = .ok () ↔
      ∀ e ∈ c.entries, ∀ type, e.mentions type → p.constantsOf type ≠ [] := by
  unfold validateFor
  split
  · rename_i type h
    have hp := List.find?_some h
    obtain ⟨e, he, hm⟩ := Catalog.mem_valueTypes.mp (List.mem_of_find?_eq_some h)
    constructor
    · intro h
      cases h
    · intro hall
      exact absurd (by simpa using hp) (hall e he type hm)
  · rename_i h
    simp only [true_iff]
    intro e he type hm
    have := List.find?_eq_none.mp h type (Catalog.mem_valueTypes.mpr ⟨e, he, hm⟩)
    simpa using this

/-- A few literals of each type, among them its null. -/
def standard : ConstantPool :=
  ⟨[.int 0, .int 1, .int (-1), .int 2, .int 7,
    .string "A", .string "B", .string "A%", .string "%B", .string "AB", .string "",
    .bool true, .bool false,
    .dateTime ⟨0, 0⟩, .dateTime ⟨1000000000, 0⟩,
    .null .int, .null .string, .null .bool, .null .dateTime]⟩

end ConstantPool

end QueryParity
