import QueryParity.Config
import QueryParity.Toml.Library

/-!
# Settings as text

Settings are read from and written to a settings file with one entry per setting, by a library for
such files. Missing settings have their standard value. An unknown entry, and a value of the wrong
kind or out of range, makes the whole text unusable.
-/

namespace QueryParity.Config

/-- The entries of settings. -/
def toEntries (c : Config) : Toml.Entries :=
  [("seed", .integer c.seed.toNat),
    ("iterations", .integer c.iterations.toNat),
    ("max_depth", .integer c.maxDepth.toNat),
    ("target", .string c.target.label),
    ("root_types", .array (c.rootTypes.map fun type => .string type.label)),
    ("shape", .string c.shape.label),
    ("constant_operand_odds", .integer c.constantOperandOdds.toNat)]

/-- The number below a limit that a value stands for. -/
def natBelow? (limit : Nat) : Toml.Value → Option Nat
  | .integer n => if 0 ≤ n ∧ n < limit then some n.toNat else none
  | _ => none

/-- The choice that a value stands for: a label, which may also be written as the only key of a
table with an empty value. -/
def choice? {α : Type} (ofLabel? : String → Option α) : Toml.Value → Option α
  | .string label => ofLabel? label
  | .table [(label, .table [])] => ofLabel? label
  | .table [(label, .array [])] => ofLabel? label
  | _ => none

/-- The types that a value lists. -/
def types? : Toml.Value → Option (List ValueType)
  | .array items => items.mapM (choice? ValueType.ofLabel?)
  | _ => none

/-- The settings with the value of one entry. -/
def set? (c : Config) (entry : String × Toml.Value) : Option Config :=
  let (key, v) := entry
  match key with
  | "seed" => (natBelow? UInt64.size v).map fun n => { c with seed := n.toUInt64 }
  | "iterations" => (natBelow? UInt64.size v).map fun n => { c with iterations := n.toUInt64 }
  | "max_depth" => (natBelow? UInt64.size v).map fun n => { c with maxDepth := n.toUInt64 }
  | "target" => (choice? ValueType.ofLabel? v).map fun target => { c with target }
  | "root_types" => (types? v).map fun rootTypes => { c with rootTypes }
  | "shape" => (choice? QueryShape.ofLabel? v).map fun shape => { c with shape }
  | "constant_operand_odds" =>
    (natBelow? UInt32.size v).map fun n => { c with constantOperandOdds := n.toUInt32 }
  | _ => none

/-- The settings of some entries. -/
def ofEntries? (entries : Toml.Entries) : Option Config := entries.foldlM set? standard

/-- The settings that a text describes, which must be of use to a run. -/
def ofText (lib : Toml.Library) (text : String) : Except ConfigError Config := do
  match lib.read text >>= ofEntries? with
  | none => .error .malformedSettings
  | some c => do
    c.validate
    .ok c

/-- The text of settings. -/
def toText (lib : Toml.Library) (c : Config) : Except ConfigError String :=
  (lib.write c.toEntries).mapError .unwritableSettings

/-- The settings in a file, given what the file holds, if there is one. -/
def ofFile (lib : Toml.Library) (file : String) (text? : Option String) :
    Except ConfigError Config :=
  match text? with
  | none => .error (.missingFile file)
  | some text => ofText lib text

end QueryParity.Config
