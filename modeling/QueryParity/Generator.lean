import QueryParity.ConstantPool
import QueryParity.RootSlots

/-!
# Random trees

A tree of a requested type is grown from the root downwards. A branch goes on with a random operator
that yields the type, or ends in a placeholder or a literal; ending becomes likelier with depth and
is certain at the maximum depth. Placeholders are taken from root slots, literals from a constant
pool.
-/

namespace QueryParity

/-- What trees are grown from. -/
structure Generator where
  /-- Operators of the inner nodes. -/
  catalog : Catalog
  /-- Literals of the leaves. -/
  constants : ConstantPool
  /-- Bound on the depth. -/
  maxDepth : Nat
  /-- A second operand is a literal once in so many draws on average, and never if this is zero. -/
  constantOperandOdds : Nat

/-- What a tree uses up while it grows. -/
structure Supply (σ : Type) where
  /-- Slots of the placeholders. -/
  slots : RootSlots
  /-- Source of random words. -/
  rng : σ

namespace Generator

variable {σ : Type} [RandomSource σ]

/-- The odds of a literal as second operand if none are given. -/
def defaultOdds : Nat := 3

/-- Draw from the random source. -/
def draw {α : Type} (f : σ → α × σ) : StateM (Supply σ) α := fun s =>
  let (a, rng) := f s.rng
  (a, { s with rng })

/-- A literal of a type, or its null if there is none. -/
def literal (g : Generator) (type : ValueType) : StateM (Supply σ) Expr := do
  match ← draw (RandomSource.choose (g.constants.constantsOf type)) with
  | some v => pure (.const v)
  | none => pure (.null type)

/-- Take a slot of a type. -/
def takeSlot (type : ValueType) : StateM (Supply σ) (Option Nat) := fun s =>
  let (index, slots, rng) := s.slots.take type s.rng
  (index, ⟨slots, rng⟩)

/-- A leaf of a type: a placeholder, or a literal if no slot has the type. -/
def leaf (g : Generator) (type : ValueType) : StateM (Supply σ) Expr := do
  match ← takeSlot type with
  | some index => pure (.root index type)
  | none => g.literal type

/-- The operator with which a branch goes on that may grow by so many levels, `none` if the branch
ends. Nothing is drawn for a type without operators. -/
def nextOperator? (g : Generator) (type : ValueType) (remaining : Nat) :
    StateM (Supply σ) (Option Catalog.Entry) := do
  if g.catalog.countOf type = 0 then pure none
  else
    let limit ← draw (RandomSource.below g.maxDepth)
    if g.maxDepth - remaining ≤ limit then
      draw (RandomSource.choose (g.catalog.operatorsOf type))
    else pure none

/-- Whether the second operand is a literal. -/
def wantsLiteral (g : Generator) : StateM (Supply σ) Bool :=
  if g.constantOperandOdds = 0 then pure false
  else draw (RandomSource.oneIn g.constantOperandOdds)

/-- A tree of a type that is at most so many levels deep. -/
def grow (g : Generator) : (remaining : Nat) → ValueType → StateM (Supply σ) Expr
  | 0, type => g.leaf type
  | remaining + 1, type => do
    match ← g.nextOperator? type (remaining + 1) with
    | none => g.leaf type
    | some (.binary e) =>
      let lhs ← g.grow remaining e.lhs
      let rhs ← if ← g.wantsLiteral then g.literal e.rhs else g.grow remaining e.rhs
      pure (e.build lhs rhs)
    | some (.unary e) =>
      let operand ← g.grow remaining e.input
      pure (e.build operand)

/-- A tree of the target type, which is reported, and what is left of the supply. -/
def generate (g : Generator) (target : ValueType) (supply : Supply σ) :
    Logged Event (Expr × Supply σ) := do
  let (tree, supply) := (g.grow g.maxDepth target).run supply
  .emit (.generated target tree)
  pure (tree, supply)

end Generator

end QueryParity
