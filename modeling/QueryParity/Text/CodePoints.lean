/-!
# Sets of code points

A set is given by the ascending list of the code points at which membership changes. It holds the
code points from an odd-numbered change up to the next change, so counting the changes that are
not above a code point decides membership.
-/

namespace QueryParity

/-- A set of code points, stored as the points at which membership flips. -/
structure CodePoints where
  /-- Ascending code points; the first one enters the set, the second one leaves it, and so on. -/
  changes : List Nat
  deriving DecidableEq, Repr

namespace CodePoints

/-- Membership: an odd number of changes lies at or below the code point. -/
def contains (s : CodePoints) (c : Char) : Bool :=
  (s.changes.takeWhile (· ≤ c.toNat)).length % 2 == 1

end CodePoints

end QueryParity
