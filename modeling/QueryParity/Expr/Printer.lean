import QueryParity.Expr.Typing
import QueryParity.Layout.Style

/-!
# Printed trees

Placeholders are written `$i` and columns `eN.Property`. Operators stand between their operands,
with as few parentheses as their binding strength allows; calls are written `Name(a, b)`. A tree is
shown in a message at a width of 80.

The levels of parentheses and argument lists are counted in a byte, for the colors of parentheses.
A tree with more levels is not printable: where it is to be printed, the program breaks off.
-/

namespace QueryParity.Expr

/-- Binding strength of a binary operator; the higher one binds tighter. -/
def operatorStrength : BinaryOp → Nat
  | .orElse => 1
  | .andAlso => 2
  | .or => 3
  | .and => 4
  | .equal | .notEqual => 5
  | .lessThan | .lessThanOrEqual | .greaterThan | .greaterThanOrEqual => 6
  | .leftShift | .rightShift => 7
  | .add | .subtract => 8
  | .multiply | .divide | .modulo => 9

/-- Binding strength of the topmost node. A null test reads like an equality. -/
def strength : Expr → Nat
  | .binary op _ _ => operatorStrength op
  | .unary .isNull _ | .unary .isNotNull _ => 5
  | .unary _ _ => 10
  | _ => 255

/-- Whether an operand needs parentheses: operators group to the left, so a right operand also
needs them at the same strength. -/
def needsParens (operand : Expr) (outer : Nat) (isRight : Bool) : Bool :=
  operand.strength < outer || (isRight && operand.strength == outer)

/-- A constant: `null`, `true` and `false` are keywords. -/
def literalDoc (v : Value) : Doc Style :=
  match v with
  | .null _ | .bool _ => .styled .keyword v.display
  | _ => .styled .literal v.display

/-- An operand in parentheses at the given depth, or bare. -/
def operandDoc (parens : Bool) (depth : Nat) (inner : Nat → Doc Style) : Doc Style :=
  if parens then
    .group (.styled (.paren depth) "(" ++ inner (depth + 1) ++ .styled (.paren depth) ")")
  else inner depth

/-- The symbol of a negation: a tilde for the complement of an integer. -/
def notSymbol (operand : Expr) : String :=
  match operand.infer with
  | .ok .int => "~"
  | _ => "!"

/-- A null test with the given symbol. -/
def nullTestDoc (operand : Doc Style) (symbol : String) : Doc Style :=
  .group
    (operand ++ .plain " " ++ .styled .operator symbol ++ .plain " " ++ .styled .keyword "null")

mutual

/-- A tree as a document; `depth` counts the parentheses around it. -/
def toDoc : Expr → Nat → Doc Style
  | .const v, _ => literalDoc v
  | .root index _, _ => .styled .identifier s!"${index}"
  | .field column type, _ =>
    .styled .identifier s!"e{column}" ++ .styled .punctuation "." ++
      .styled .identifier type.propertyName
  | .binary op l r, depth =>
    let outer := operatorStrength op
    .nest 2 (.group (operandDoc (needsParens l outer false) depth (fun d => toDoc l d) ++
      .plain " " ++ .styled .operator op.symbol ++ .line ++
      operandDoc (needsParens r outer true) depth (fun d => toDoc r d)))
  | .unary op a, depth =>
    let operand := operandDoc (needsParens a (strength (.unary op a)) true) depth
      (fun d => toDoc a d)
    match op with
    | .not => .styled .operator (notSymbol a) ++ operand
    | .negate => .styled .operator "-" ++ operand
    | .isNull => nullTestDoc operand "=="
    | .isNotNull => nullTestDoc operand "!="
    | .convert target =>
      .styled (.paren depth) "(" ++ .styled .keyword target.label ++ .styled (.paren depth) ")" ++
        operand
  | .call f args, depth =>
    .group (.styled .function f.name ++ .styled (.paren depth) "(" ++
      .nest 2 (.intersperse (.styled .punctuation "," ++ .line) (argumentDocs args (depth + 1))) ++
      .styled (.paren depth) ")")

/-- The arguments of a call as documents. -/
def argumentDocs : List Expr → Nat → List (Doc Style)
  | [], _ => []
  | e :: es, depth => toDoc e depth :: argumentDocs es depth

end

mutual

/-- The levels of parentheses and argument lists within a printed tree. An operand is a level deeper
if it needs parentheses, and an argument always is. -/
def nesting : Expr → Nat
  | .const _ | .root _ _ | .field _ _ => 0
  | .binary op l r =>
    let outer := operatorStrength op
    max (nesting l + (needsParens l outer false).toNat)
      (nesting r + (needsParens r outer true).toNat)
  | .unary op a => nesting a + (needsParens a (strength (.unary op a)) true).toNat
  | .call _ args => argumentNesting args

/-- The levels within the argument list of a call, itself included unless it is empty. -/
def argumentNesting : List Expr → Nat
  | [] => 0
  | e :: es => max (nesting e + 1) (argumentNesting es)

end

/-- Whether a byte can count the levels of a tree, so that printing it does not break off. -/
def isPrintable (e : Expr) : Bool := e.nesting < UInt8.size

/-- The document of a whole tree, which has to be printable. -/
def document (e : Expr) : Doc Style := e.toDoc 0

/-- A tree as text at a width. -/
def pretty (width : Nat) (e : Expr) : String := e.document.pretty width

/-- A tree as text at a width, with escape sequences for terminals. -/
def colored (width : Nat) (e : Expr) : String := e.document.colored width

/-- A tree as it is shown in messages. -/
def display (e : Expr) : String := e.pretty 80

end QueryParity.Expr
