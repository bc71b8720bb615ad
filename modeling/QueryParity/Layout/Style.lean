import QueryParity.Layout.Render

/-!
# Styles of printed trees

Each kind of token has a look, and terminals show the look by escape sequences around the token.
The color of parentheses follows their depth, so that matching ones share it.
-/

namespace QueryParity

/-- Terminal colors. -/
inductive Color where
  | red
  | green
  | yellow
  | blue
  | magenta
  | cyan
  | white
  deriving DecidableEq, Repr

/-- Number of a color in escape sequences. -/
def Color.code : Color → Nat
  | .red => 1
  | .green => 2
  | .yellow => 3
  | .blue => 4
  | .magenta => 5
  | .cyan => 6
  | .white => 7

/-- The look of a token. -/
structure Look where
  /-- Foreground color, if it differs from the default. -/
  color : Option Color
  /-- Written in bold. -/
  bold : Bool
  /-- Written dimmed. -/
  dimmed : Bool
  deriving DecidableEq, Repr

/-- Kinds of tokens in printed trees. -/
inductive Style where
  /-- Commas and dots. -/
  | punctuation
  /-- Parentheses, by the number of parentheses around them. -/
  | paren (depth : Nat)
  /-- The words `true`, `false` and `null`, and type names. -/
  | keyword
  /-- Operator symbols. -/
  | operator
  /-- Placeholders, columns and properties. -/
  | identifier
  /-- Numbers, strings and dates. -/
  | literal
  /-- Function names. -/
  | function
  deriving DecidableEq, Repr

/-- Colors of parentheses take turns by depth. -/
def parenColor (depth : Nat) : Color :=
  match depth % 6 with
  | 0 => .blue
  | 1 => .green
  | 2 => .white
  | 3 => .yellow
  | 4 => .red
  | _ => .magenta

/-- The look of each kind of token. -/
def Style.look : Style → Look
  | .punctuation => ⟨none, false, true⟩
  | .paren depth => ⟨some (parenColor depth), false, true⟩
  | .keyword => ⟨some .cyan, true, false⟩
  | .operator => ⟨some .yellow, true, false⟩
  | .identifier => ⟨some .green, true, false⟩
  | .literal => ⟨some .magenta, false, false⟩
  | .function => ⟨some .blue, true, false⟩

/-- The escape sequence with the given parameter. -/
def escapeSequence (parameter : String) : String := "\x1b[" ++ parameter ++ "m"

/-- The sequence that ends every look. -/
def resetSequence : String := escapeSequence "0"

/-- The sequences that begin a look, after a reset. -/
def Look.sequences (l : Look) : String :=
  resetSequence ++ (if l.bold then escapeSequence "1" else "") ++
    (if l.dimmed then escapeSequence "2" else "") ++
    (match l.color with
      | some c => escapeSequence ("3" ++ toString c.code)
      | none => "")

namespace Doc

/-- The text of a piece, with its look shown by escape sequences. -/
def Piece.colored : Piece Style → String
  | .text (some style) s => style.look.sequences ++ s ++ resetSequence
  | .text none s => s
  | .newline indent => newlineText indent

/-- The text of a document by a choice of flat groups, with escape sequences. -/
def coloredBy (flat : Choice Style) (d : Doc Style) : String :=
  String.join ((render flat d).map Piece.colored)

/-- The text of a document at a width, with escape sequences. -/
def colored (width : Nat) (d : Doc Style) : String := d.coloredBy (groupFits width)

end Doc

end QueryParity
