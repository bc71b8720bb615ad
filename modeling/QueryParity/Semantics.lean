import QueryParity.Fault
import QueryParity.Operator
import QueryParity.Text.Wildcard
import QueryParity.Value
import QueryParity.ZoneOffset

/-!
# Semantics of the operators

Both evaluation paths apply operators through this module. Arithmetic, shifts and negation pass
nulls on, before a zero divisor is looked at; the connectives are three-valued; equality treats
nulls as equal to each other; comparisons and string predicates with a null are false. Integers
wrap, and a shift looks at the low five bits of its count.
-/

namespace QueryParity

/-- The content of an integer, `none` for a null integer, a fault for any other value. -/
def Value.int? (site : FaultSite) : Value → Except Fault (Option Int32)
  | .int n => .ok (some n)
  | .null .int => .ok none
  | v => .error (.typeMismatch site .int v.type)

/-- The content of a boolean, `none` for a null boolean, a fault for any other value. -/
def Value.bool? (site : FaultSite) : Value → Except Fault (Option Bool)
  | .bool b => .ok (some b)
  | .null .bool => .ok none
  | v => .error (.typeMismatch site .bool v.type)

/-- The content of a string, `none` for a null string, a fault for any other value. -/
def Value.string? (site : FaultSite) : Value → Except Fault (Option String)
  | .string s => .ok (some s)
  | .null .string => .ok none
  | v => .error (.typeMismatch site .string v.type)

/-- The content of a date-time, `none` for a null one, a fault for any other value. -/
def Value.dateTime? (site : FaultSite) : Value → Except Fault (Option Instant)
  | .dateTime t => .ok (some t)
  | .null .dateTime => .ok none
  | v => .error (.typeMismatch site .dateTime v.type)

/-- A truth value of three-valued logic as a value; `none` is the null boolean. -/
def Value.ofTruth : Option Bool → Value
  | some b => .bool b
  | none => .null .bool

/-- Three-valued conjunction: false as soon as one side is. -/
def truthAnd : Option Bool → Option Bool → Option Bool
  | some false, _ => some false
  | _, some false => some false
  | some true, some true => some true
  | _, _ => none

/-- Three-valued disjunction: true as soon as one side is. -/
def truthOr : Option Bool → Option Bool → Option Bool
  | some true, _ => some true
  | _, some true => some true
  | some false, some false => some false
  | _, _ => none

/-- Conjunction does not depend on the order of its sides. -/
theorem truthAnd_comm (a b : Option Bool) : truthAnd a b = truthAnd b a := by
  rcases a with _ | _ | _ <;> rcases b with _ | _ | _ <;> rfl

/-- Disjunction does not depend on the order of its sides. -/
theorem truthOr_comm (a b : Option Bool) : truthOr a b = truthOr b a := by
  rcases a with _ | _ | _ <;> rcases b with _ | _ | _ <;> rfl

namespace BinaryOp

/-- Whether the left operand alone decides the result; a null never does. -/
def decides (op : BinaryOp) (l : Value) : Bool :=
  match op, l with
  | .andAlso, .bool false => true
  | .orElse, .bool true => true
  | _, _ => false

/-- An operator decides nothing unless it is a short-circuit operator. -/
theorem decides_eq_false {op : BinaryOp} (h : op.isShortCircuit = false) (v : Value) :
    op.decides v = false := by
  cases op with
  | andAlso | orElse => cases h
  | _ => rfl

/-- Integer arithmetic on two integers, null if one of them is. -/
def arithmetic (f : Int32 → Int32 → Except Fault Int32) (l r : Value) : Except Fault Value := do
  let a ← l.int? .integerArithmetic
  let b ← r.int? .integerArithmetic
  match a, b with
  | some a, some b => (f a b).map .int
  | _, _ => .ok (.null .int)

/-- Division that faults on a zero divisor. -/
def guarded (f : Int32 → Int32 → Int32) (a b : Int32) : Except Fault Int32 :=
  if b = 0 then .error .divideByZero else .ok (f a b)

/-- A connective of three-valued logic. -/
def connective (site : FaultSite) (f : Option Bool → Option Bool → Option Bool) (l r : Value) :
    Except Fault Value := do
  let a ← l.bool? site
  let b ← r.bool? site
  .ok (.ofTruth (f a b))

/-- Whether two values of one type are equal; two nulls are. -/
def equality (l r : Value) : Except Fault Bool :=
  if l.type = r.type then .ok (l == r) else .error (.typeMismatch .equality l.type r.type)

/-- How two values compare, `none` if one of them is a null. -/
def ordering (l r : Value) : Except Fault (Option Ordering) :=
  match l, r with
  | .null _, _ => .ok none
  | _, .null _ => .ok none
  | .int a, .int b => .ok (some (compare a b))
  | .dateTime a, .dateTime b => .ok (some (a.compare b))
  | .int _, r => .error (.typeMismatch .comparison .int r.type)
  | .dateTime _, r => .error (.typeMismatch .comparison .dateTime r.type)
  | l, _ => .error (.typeMismatch .comparison .int l.type)

/-- A comparison, false if one of the values is a null. -/
def comparison (test : Ordering → Bool) (l r : Value) : Except Fault Value := do
  let o ← ordering l r
  .ok (.bool (o.any test))

/-- The value of a binary operator applied to two values. -/
def apply (op : BinaryOp) (l r : Value) : Except Fault Value :=
  match op with
  | .add => arithmetic (fun a b => .ok (a + b)) l r
  | .subtract => arithmetic (fun a b => .ok (a - b)) l r
  | .multiply => arithmetic (fun a b => .ok (a * b)) l r
  | .divide => arithmetic (guarded (· / ·)) l r
  | .modulo => arithmetic (guarded (· % ·)) l r
  | .leftShift => arithmetic (fun a b => .ok (a <<< b)) l r
  | .rightShift => arithmetic (fun a b => .ok (a >>> b)) l r
  | .and | .andAlso => connective .conjunction truthAnd l r
  | .or | .orElse => connective .disjunction truthOr l r
  | .equal => (equality l r).map .bool
  | .notEqual => (equality l r).map fun b => .bool (!b)
  | .lessThan => comparison Ordering.isLT l r
  | .lessThanOrEqual => comparison Ordering.isLE l r
  | .greaterThan => comparison Ordering.isGT l r
  | .greaterThanOrEqual => comparison Ordering.isGE l r

end BinaryOp

/-- The value of a unary operator applied to a value. -/
def UnaryOp.apply (op : UnaryOp) (v : Value) : Except Fault Value :=
  match op with
  | .not =>
    match v with
    | .bool b => .ok (.bool (!b))
    | .int n => .ok (.int (~~~n))
    | .null .bool => .ok (.null .bool)
    | .null .int => .ok (.null .int)
    | v => .error (.typeMismatch .negation .bool v.type)
  | .negate => do
    match ← v.int? .arithmeticNegation with
    | some n => .ok (.int (-n))
    | none => .ok (.null .int)
  | .isNull => .ok (.bool v.isNull)
  | .isNotNull => .ok (.bool (!v.isNull))
  | .convert target =>
    match target, v with
    | target, .null _ => .ok (.null target)
    | .int, .bool b => .ok (.int (if b then 1 else 0))
    | .string, .int n => .ok (.string (toString n.toInt))
    | target, v =>
      if v.type = target then .ok v else .error (.typeMismatch .conversion target v.type)

namespace Func

/-- A test of one string against another, false if one of them is a null. -/
def stringPredicate (test : String → String → Bool) (input pattern : Value) :
    Except Fault Value := do
  let a ← input.string? .stringPredicate
  let b ← pattern.string? .stringPredicate
  match a, b with
  | some a, some b => .ok (.bool (test a b))
  | _, _ => .ok (.bool false)

/-- Whether `input` begins with `start`. -/
def hasStart (input start : String) : Bool := start.toList.isPrefixOf input.toList

/-- Whether `input` ends with `tail`. -/
def hasEnd (input tail : String) : Bool := tail.toList.isSuffixOf input.toList

/-- A date-time seen from a zone: the same instant, if the zone is known. -/
def inZone (input zone : Value) : Except Fault Value := do
  let t ← input.dateTime? .atTimeZone
  let z ← zone.string? .atTimeZone
  match t, z with
  | some t, some z =>
    match ZoneOffset.ofText? z with
    | some _ => .ok (.dateTime t)
    | none => .error (.unknownTimeZone z)
  | _, _ => .ok (.null .dateTime)

/-- The value of a function applied to its arguments; every function takes two. -/
def apply (f : Func) (args : List Value) : Except Fault Value :=
  match args with
  | [a, b] =>
    match f with
    | .like => stringPredicate likeMatch a b
    | .startsWith => stringPredicate hasStart a b
    | .endsWith => stringPredicate hasEnd a b
    | .atTimeZone => inZone a b
  | _ => .error (.stackUnderflow args.length)

end Func

end QueryParity
