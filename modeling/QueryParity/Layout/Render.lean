import QueryParity.Layout.Document

/-!
# Rendering of documents

A document is laid out from left to right, by a choice of the groups that are laid out flat among
those reached outside a flat group. At a width these are the groups whose text and the text after
it, up to the next place where a line may end, fit within the width. A line feed is followed by the
indentation of what comes next.
-/

namespace QueryParity.Doc

/-- A part of rendered text. -/
inductive Piece (σ : Type) where
  | text (style : Option σ) (s : String)
  /-- A line feed and the indentation of the new line. -/
  | newline (indent : Nat)
  deriving Repr

/-- The column after a document laid out flat, `none` if it passes the width. -/
def flatEnd {σ : Type} (width : Nat) : Doc σ → Nat → Option Nat
  | .empty, column => some column
  | .text _ s, column =>
    let column := column + displayWidth s
    if column ≤ width then some column else none
  | .line, column => if column + 1 ≤ width then some (column + 1) else none
  | .append a b, column => (flatEnd width a column).bind (flatEnd width b)
  | .group d, column => flatEnd width d column
  | .nest _ d, column => flatEnd width d column

/-- How far a document reaches on the current line when its breaks may end the line. -/
inductive Reach where
  /-- The text passes the width. -/
  | overflow
  /-- A place where the line may end is reached in time. -/
  | lineEnd
  /-- The document ends on the line, at this column. -/
  | column (n : Nat)
  deriving DecidableEq, Repr

/-- Continue from the column reached, if the line goes on. -/
def Reach.andThen (r : Reach) (next : Nat → Reach) : Reach :=
  match r with
  | .column n => next n
  | r => r

/-- How far a document reaches from a column when its breaks may end the line. -/
def brokenReach {σ : Type} (width : Nat) : Doc σ → Nat → Reach
  | .empty, column => .column column
  | .text _ s, column =>
    let column := column + displayWidth s
    if column ≤ width then .column column else .overflow
  | .line, _ => .lineEnd
  | .append a b, column => (brokenReach width a column).andThen (brokenReach width b)
  | .group d, column => brokenReach width d column
  | .nest _ d, column => brokenReach width d column

/-- How a document is laid out. -/
inductive Mode where
  | flat
  | broken
  deriving DecidableEq, Repr

/-- A document that is still to be laid out. -/
structure Pending (σ : Type) where
  /-- Indentation of the lines that begin in it. -/
  indent : Nat
  /-- Whether its breaks are spaces. -/
  mode : Mode
  /-- The document. -/
  doc : Doc σ

/-- Whether the pending documents reach a place where the line may end, or their end, in time. -/
def restFits {σ : Type} (width : Nat) : List (Pending σ) → Nat → Bool
  | [], _ => true
  | p :: ps, column =>
    match brokenReach width p.doc column with
    | .overflow => false
    | .lineEnd => true
    | .column column => restFits width ps column

/-- Whether a group may be laid out flat from a column. -/
def groupFits {σ : Type} (width : Nat) (d : Doc σ) (rest : List (Pending σ)) (column : Nat) :
    Bool :=
  match flatEnd width d column with
  | none => false
  | some column => restFits width rest column

/-- Work left in a list of pending documents. -/
def pendingWeight {σ : Type} : List (Pending σ) → Nat
  | [] => 0
  | p :: ps => p.doc.weight + pendingWeight ps

/-- Which groups are laid out flat, of those reached outside a flat group: the choice is made by the
group, what is pending behind it, and the column. -/
abbrev Choice (σ : Type) : Type := Doc σ → List (Pending σ) → Nat → Bool

/-- The pieces of the pending documents, from a column on. -/
def layout {σ : Type} (flat : Choice σ) (pending : List (Pending σ)) (column : Nat) :
    List (Piece σ) :=
  match pending with
  | [] => []
  | ⟨indent, mode, d⟩ :: rest =>
    match d with
    | .empty => layout flat rest column
    | .text style s => .text style s :: layout flat rest (column + displayWidth s)
    | .line =>
      match mode with
      | .flat => .text none " " :: layout flat rest (column + 1)
      | .broken =>
        let indent := (rest.head?.map (·.indent)).getD indent
        .newline indent :: layout flat rest indent
    | .append a b => layout flat (⟨indent, mode, a⟩ :: ⟨indent, mode, b⟩ :: rest) column
    | .group d =>
      let mode :=
        match mode with
        | .flat => .flat
        | .broken => if flat d rest column then .flat else .broken
      layout flat (⟨indent, mode, d⟩ :: rest) column
    | .nest more d => layout flat (⟨indent + more, mode, d⟩ :: rest) column
termination_by pendingWeight pending
decreasing_by all_goals simp [pendingWeight, weight] <;> omega

/-- The pieces of a document by a choice of flat groups. -/
def render {σ : Type} (flat : Choice σ) (d : Doc σ) : List (Piece σ) :=
  layout flat [⟨0, .broken, d⟩] 0

/-- The characters of a line feed and an indentation. -/
def newlineText (indent : Nat) : String := String.ofList ('\n' :: List.replicate indent ' ')

/-- The text of a piece without its style. -/
def Piece.toString {σ : Type} : Piece σ → String
  | .text _ s => s
  | .newline indent => newlineText indent

/-- The text of a document by a choice of flat groups, without styles. -/
def prettyBy {σ : Type} (flat : Choice σ) (d : Doc σ) : String :=
  String.join ((render flat d).map Piece.toString)

/-- The text of a document at a width, without styles. -/
def pretty {σ : Type} (width : Nat) (d : Doc σ) : String := d.prettyBy (groupFits width)

end QueryParity.Doc
