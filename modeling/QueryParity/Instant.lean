/-!
# Instants

A point in time as whole seconds since the start of 1970 and nanoseconds within the second. During
a leap second the nanoseconds run on from one to two billion.
-/

namespace QueryParity

/-- A point in time. -/
structure Instant where
  /-- Seconds since 1970-01-01T00:00:00Z, negative before it. -/
  seconds : Int
  /-- Nanoseconds since that second began; a billion or more within a leap second. -/
  nanos : Nat
  deriving DecidableEq, Repr, Inhabited

namespace Instant

/-- The first representable second. -/
def firstSecond : Int := -8334601228800

/-- The last representable second. -/
def lastSecond : Int := 8210266876799

/-- The start of a second, if the second is representable. -/
def ofSeconds? (seconds : Int) : Option Instant :=
  if firstSecond ≤ seconds ∧ seconds ≤ lastSecond then some ⟨seconds, 0⟩ else none

/-- Chronological order: by second, then by nanosecond. -/
def compare (a b : Instant) : Ordering :=
  (Ord.compare a.seconds b.seconds).then (Ord.compare a.nanos b.nanos)

end Instant

end QueryParity
