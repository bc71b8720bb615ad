import QueryParity.ConfigError
import QueryParity.Random.Source

/-!
# Root slots

A pool of typed slots from which the placeholders of a tree are drawn. Slots that were not handed
out yet come first, so that a tree touches as many columns as it can.
-/

namespace QueryParity

/-- Typed slots and what was handed out of them. -/
structure RootSlots where
  /-- Type of each slot. -/
  types : List ValueType
  /-- Whether each slot was handed out. -/
  used : Array Bool
  /-- Slots in the order in which they were handed out, with repetitions. -/
  usageOrder : List Nat
  deriving DecidableEq, Repr

namespace RootSlots

/-- No slot was handed out. -/
def fresh (types : List ValueType) : RootSlots := ⟨types, Array.replicate types.length false, []⟩

/-- A fresh pool; there may not be more slots than indices. -/
def ofTypes (types : List ValueType) : Except ConfigError RootSlots :=
  if types.length ≤ indexLimit then .ok (fresh types)
  else .error (.invalidSetting (.tooManySlots types.length))

/-- Number of slots. -/
def length (s : RootSlots) : Nat := s.types.length

/-- Whether a slot was handed out. -/
def isUsed (s : RootSlots) (index : Nat) : Bool := s.used[index]?.getD false

/-- The slots of a type in ascending order. -/
def ofType (s : RootSlots) (type : ValueType) : List Nat :=
  s.types.zipIdx.filterMap fun (t, i) => if t = type then some i else none

/-- The slots from which the next one of a type is drawn: the unused ones, or all of them when none
is unused. -/
def candidates (s : RootSlots) (type : ValueType) : List Nat :=
  let unused := (s.ofType type).filter fun i => !s.isUsed i
  if unused.isEmpty then s.ofType type else unused

/-- Record that a slot was handed out. -/
def handOut (s : RootSlots) (slot : Nat) : RootSlots :=
  { s with used := s.used.setIfInBounds slot true, usageOrder := s.usageOrder ++ [slot] }

/-- Hand out a slot of a type, if there is one. A slot that no index reaches stays where it is. -/
def take {σ : Type} [RandomSource σ] (s : RootSlots) (type : ValueType) (rng : σ) :
    Option Nat × RootSlots × σ :=
  match RandomSource.choose (s.candidates type) rng with
  | (some slot, rng) =>
    if slot < indexLimit then (some slot, s.handOut slot, rng) else (none, s, rng)
  | (none, rng) => (none, s, rng)

/-- The slots of a type are the positions at which it stands. -/
theorem mem_ofType {s : RootSlots} {type : ValueType} {i : Nat} :
    i ∈ s.ofType type ↔ s.types[i]? = some type := by
  simp only [ofType, List.mem_filterMap, Prod.exists, List.mem_zipIdx_iff_getElem?]
  constructor
  · rintro ⟨t, j, hj, h⟩
    split at h
    · cases h
      simp_all
    · cases h
  · intro h
    exact ⟨type, i, h, by simp⟩

end RootSlots

end QueryParity
