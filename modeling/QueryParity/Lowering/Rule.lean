import QueryParity.Expr.Build

/-!
# Lowering rules

A rule offers a replacement for some nodes. The two standard rules lower calls with a constant
second argument: wildcard matches that ask for a beginning, an end or equality, and the change to
the zone `UTC`, which has no effect.
-/

namespace QueryParity

/-- A local replacement. -/
structure Rule where
  /-- Name in reports. -/
  name : String
  /-- Replacement for a node, `none` where the rule does not apply. -/
  replace? : Expr → Option Expr

namespace Rule

/-- The first argument and the constant second one of a call to the given function. -/
def constantCall? (f : Func) (node : Expr) : Option (Expr × Value) :=
  match node with
  | .call g [input, .const v] => if g = f then some (input, v) else none
  | _ => none

/-- The simpler test that a pattern asks for, if there is one: a single `%` at one end asks for the
characters at the other end, and a pattern without wildcards for equality. -/
def simplerMatch? (input : Expr) (pattern : String) : Option Expr :=
  let cs := pattern.toList
  if cs.contains '_' then none
  else
    match cs.count '%' with
    | 0 => some (.equal input (.stringLit pattern))
    | 1 =>
      if cs.length ≤ 1 then none
      else if cs.getLast? == some '%' then
        some (.startsWith input (.stringLit (String.ofList cs.dropLast)))
      else if cs.head? == some '%' then
        some (.endsWith input (.stringLit (String.ofList cs.tail)))
      else none
    | _ => none

/-- Wildcard matches with a constant pattern become simpler tests. -/
def likePattern : Rule where
  name := "like-pattern"
  replace? node := do
    let (input, v) ← constantCall? .like node
    let pattern ← v.text?
    simplerMatch? input pattern

/-- A date-time seen from `UTC` is itself. -/
def utcTimeZone : Rule where
  name := "utc-time-zone"
  replace? node := do
    let (input, v) ← constantCall? .atTimeZone node
    let zone ← v.text?
    if zone = "UTC" then some input else none

end Rule

end QueryParity
