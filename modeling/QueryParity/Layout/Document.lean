import QueryParity.Text.Width

/-!
# Documents

Text with choices of line breaks. A break inside a group is either a space, with every other break
of the group, or a line feed; `nest` indents the lines that begin inside it. Pieces of text may
carry a style, which has no effect on the layout.
-/

namespace QueryParity

/-- A text with optional line breaks, styled by values of `σ`. -/
inductive Doc (σ : Type) where
  | empty
  | text (style : Option σ) (s : String)
  /-- A space when its group is laid out flat, otherwise a line feed. -/
  | line
  | append (a b : Doc σ)
  /-- Laid out flat where that fits. -/
  | group (d : Doc σ)
  /-- The document with its lines indented further. -/
  | nest (indent : Nat) (d : Doc σ)
  deriving Repr

namespace Doc

instance {σ : Type} : Append (Doc σ) := ⟨append⟩

instance {σ : Type} : Inhabited (Doc σ) := ⟨empty⟩

/-- A text without style. -/
def plain {σ : Type} (s : String) : Doc σ := .text none s

/-- A text with a style. -/
def styled {σ : Type} (style : σ) (s : String) : Doc σ := .text (some style) s

/-- Documents in a row with a separator between neighbours. -/
def intersperse {σ : Type} (separator : Doc σ) : List (Doc σ) → Doc σ
  | [] => .empty
  | [d] => d
  | d :: ds => d ++ separator ++ intersperse separator ds

/-- Number of constructors, the measure by which rendering ends. -/
def weight {σ : Type} : Doc σ → Nat
  | .append a b => 1 + a.weight + b.weight
  | .group d => 1 + d.weight
  | .nest _ d => 1 + d.weight
  | _ => 1

end Doc

end QueryParity
