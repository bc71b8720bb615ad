import QueryParity.ConfigError
import QueryParity.Expr.Build

/-!
# Operators on offer

A descriptor declares an operator: its name, the types of its inputs, the type of its result and
how its node is built. It is accepted as an entry if the node built over placeholders of the input
types has the declared result type.
-/

namespace QueryParity.Catalog

/-- How the node of an operator is built from its operands. -/
inductive Builder where
  | unary (build : Expr → Expr)
  | binary (build : Expr → Expr → Expr)

/-- Number of operands. -/
def Builder.arity : Builder → Nat
  | .unary _ => 1
  | .binary _ => 2

/-- A declared operator. -/
structure Descriptor where
  /-- Name in labels and messages. -/
  name : String
  /-- Types of the operands. -/
  inputs : List ValueType
  /-- Type of the node. -/
  result : ValueType
  /-- How the node is built. -/
  builder : Builder

/-- An accepted operator with two operands. -/
structure BinaryEntry where
  /-- Name in labels. -/
  name : String
  /-- Type of the left operand. -/
  lhs : ValueType
  /-- Type of the right operand. -/
  rhs : ValueType
  /-- Type of the node. -/
  result : ValueType
  /-- The node over its operands. -/
  build : Expr → Expr → Expr

/-- An accepted operator with one operand. -/
structure UnaryEntry where
  /-- Name in labels. -/
  name : String
  /-- Type of the operand. -/
  input : ValueType
  /-- Type of the node. -/
  result : ValueType
  /-- The node over its operand. -/
  build : Expr → Expr

namespace BinaryEntry

/-- The node over placeholders of the operand types. -/
def sample (e : BinaryEntry) : Expr := e.build (.root 0 e.lhs) (.root 1 e.rhs)

/-- Name and operand types. -/
def label (e : BinaryEntry) : String := s!"{e.name}({e.lhs.label}, {e.rhs.label})"

end BinaryEntry

namespace UnaryEntry

/-- The node over a placeholder of the operand type. -/
def sample (e : UnaryEntry) : Expr := e.build (.root 0 e.input)

/-- Name and operand type. -/
def label (e : UnaryEntry) : String := s!"{e.name}({e.input.label})"

end UnaryEntry

/-- An accepted operator. -/
inductive Entry where
  | binary (e : BinaryEntry)
  | unary (e : UnaryEntry)

namespace Entry

/-- Name in labels. -/
def name : Entry → String
  | .binary e => e.name
  | .unary e => e.name

/-- Types of the operands. -/
def inputs : Entry → List ValueType
  | .binary e => [e.lhs, e.rhs]
  | .unary e => [e.input]

/-- Type of the node. -/
def result : Entry → ValueType
  | .binary e => e.result
  | .unary e => e.result

/-- The node over placeholders of the operand types. -/
def sample : Entry → Expr
  | .binary e => e.sample
  | .unary e => e.sample

/-- Whether a type is that of an operand or of the node. -/
def mentions (e : Entry) (type : ValueType) : Bool := e.result = type || e.inputs.contains type

end Entry

namespace Descriptor

/-- Declaration of an operator with two operands. -/
def binary (name : String) (lhs rhs result : ValueType) (build : Expr → Expr → Expr) :
    Descriptor :=
  ⟨name, [lhs, rhs], result, .binary build⟩

/-- Declaration of an operator with one operand. -/
def unary (name : String) (input result : ValueType) (build : Expr → Expr) : Descriptor :=
  ⟨name, [input], result, .unary build⟩

/-- The entry that is declared, if there are as many input types as operands. -/
def declared? (d : Descriptor) : Option Entry :=
  match d.builder, d.inputs with
  | .unary build, [input] => some (.unary ⟨d.name, input, d.result, build⟩)
  | .binary build, [lhs, rhs] => some (.binary ⟨d.name, lhs, rhs, d.result, build⟩)
  | _, _ => none

/-- The entry that is declared, or the first of three reasons against it: the number of operands,
a node without a type, and a node of another type. -/
def accept (d : Descriptor) : Except ConfigError Entry :=
  match d.declared? with
  | none => .error (.arityMismatch d.name d.inputs.length d.builder.arity)
  | some entry =>
    match entry.sample.infer with
    | .error reason => .error (.illTypedOperator d.name reason)
    | .ok inferred =>
      if inferred = d.result then .ok entry
      else .error (.resultTypeMismatch d.name d.result inferred)

/-- There is an entry exactly if there are as many input types as operands. -/
theorem declared?_isSome_iff {d : Descriptor} :
    d.declared?.isSome ↔ d.inputs.length = d.builder.arity := by
  obtain ⟨name, inputs, result, builder⟩ := d
  cases builder <;> rcases inputs with _ | ⟨a, _ | ⟨b, _ | ⟨c, rest⟩⟩⟩ <;>
    simp [declared?, Builder.arity]

/-- The node of an accepted entry has the entry's result type. -/
theorem infer_sample_of_accept {d : Descriptor} {e : Entry} (h : d.accept = .ok e) :
    e.sample.infer = .ok e.result := by
  unfold accept at h
  split at h
  · cases h
  · rename_i entry he
    split at h
    · cases h
    · rename_i inferred hs
      split at h
      · rename_i hr
        cases h
        rw [hs, hr]
        unfold declared? at he
        split at he <;> cases he <;> rfl
      · cases h

end Descriptor

end QueryParity.Catalog
