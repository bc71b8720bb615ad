import QueryParity.Expr.Build
import QueryParity.Expr.Printer
import QueryParity.Proofs.Layout.Escapes
import QueryParity.Proofs.Text.Controls

/-!
# Layouts of printed trees

The document of a tree is put together from phrases: they begin with a character that is not a
space, no text in them has a control character, and every break is in a group and in front of a
phrase. So the choice of flat groups and the colors change the layout of a printed tree only:
joining its lines gives the text on one line, and taking the escape sequences away gives the plain
text. The width makes one such choice.
-/

namespace QueryParity

/-- The characters begin with one that is not a space. -/
def Begins (cs : List Char) : Prop := cs.head?.any (· != ' ') = true

instance (cs : List Char) : Decidable (Begins cs) := inferInstanceAs (Decidable (_ = _))

namespace Begins

variable {cs : List Char}

/-- What stands behind does not matter. -/
theorem append (h : Begins cs) (next : List Char) : Begins (cs ++ next) := by
  cases cs with
  | nil => cases h
  | cons c cs => exact h

/-- The first character is not a space. -/
theorem head?_ne (h : Begins cs) : cs.head? ≠ some ' ' := by
  intro hspace
  rw [Begins, hspace] at h
  cases h

/-- A text begins with what it is put together from. -/
theorem string {s : String} (h : Begins s.toList) (t : String) : Begins (s ++ t).toList := by
  rw [String.toList_append]
  exact h.append _

/-- A number begins with a digit. -/
theorem nat (n : Nat) : Begins (toString n).toList := by
  rw [Nat.toString_eq_repr, Nat.toList_repr]
  obtain ⟨c, cs, hdigits⟩ := List.exists_cons_of_ne_nil (Nat.toDigits_ne_nil (b := 10) (n := n))
  have hdigit : c.isDigit := Nat.isDigit_of_mem_toDigits (b := 10) (n := n) (by decide) (by decide)
    (hdigits ▸ List.mem_cons_self)
  rw [hdigits, Begins, List.head?_cons, Option.any_some, bne_iff_ne]
  rintro rfl
  cases hdigit

/-- An integer begins with a digit or a sign. -/
theorem int (n : Int) : Begins (toString n).toList := by
  cases n with
  | ofNat n => exact nat n
  | negSucc n => exact string (s := "-") (by decide) _

/-- A value is written with a visible character in front. -/
theorem display (v : Value) : Begins v.display.toList := by
  cases v with
  | null type => exact (by decide : Begins "null".toList)
  | int n => exact int n.toInt
  | bool b => cases b <;> decide
  | string s =>
    rw [Value.display, quoted, String.toList_ofList]
    exact (by decide : Begins ['"']).append _
  | dateTime t => exact ((by decide : Begins "#".toList).string _).string _

end Begins

namespace Doc

variable {σ : Type} {a b d : Doc σ} {s : String} {style : Option σ}

/-- A document without control characters, whose breaks are not followed by a space. -/
structure Tame (d : Doc σ) : Prop where
  /-- No text has a control character. -/
  noControls : d.EveryText NoControls
  /-- No break is followed by a space, whatever stands behind the document. -/
  tidy : ∀ next, d.Tidy next

/-- A document that may stand behind a break and outside of groups. -/
structure Phrase (d : Doc σ) : Prop extends Tame d where
  /-- Every break is in a group. -/
  grouped : d.Grouped
  /-- The first character is not a space. -/
  begins : Begins d.flatText

namespace Tame

/-- A text without control characters. -/
theorem text (h : NoControls s) : Tame (.text style s) := ⟨h, fun _ => trivial⟩

/-- One document behind another. -/
theorem append (ha : Tame a) (hb : Tame b) : Tame (a ++ b) :=
  ⟨⟨ha.noControls, hb.noControls⟩, fun next => ⟨ha.tidy _, hb.tidy next⟩⟩

/-- A break in front of a phrase. -/
theorem breakBefore (ha : Tame a) (hb : Tame b) (hbegins : Begins b.flatText) :
    Tame (a ++ .line ++ b) :=
  ⟨⟨⟨ha.noControls, trivial⟩, hb.noControls⟩,
    fun next => ⟨⟨ha.tidy _, (hbegins.append next).head?_ne⟩, hb.tidy next⟩⟩

/-- An indented document. -/
theorem nest (h : Tame d) (indent : Nat) : Tame (.nest indent d) := ⟨h.noControls, h.tidy⟩

/-- Phrases with a text and a break between neighbours. -/
theorem intersperse {ds : List (Doc σ)} (h : ∀ d ∈ ds, Phrase d) (style : Option σ)
    (hs : NoControls s) :
    Tame (Doc.intersperse (.text style s ++ .line) ds) ∧
      (ds ≠ [] → Begins (Doc.intersperse (.text style s ++ .line) ds).flatText) := by
  induction ds with
  | nil => exact ⟨⟨trivial, fun _ => trivial⟩, fun hne => absurd rfl hne⟩
  | cons d ds ih =>
    rw [List.forall_mem_cons] at h
    cases ds with
    | nil => exact ⟨h.1.toTame, fun _ => h.1.begins⟩
    | cons d' ds =>
      obtain ⟨htame, hbegins⟩ := ih h.2
      refine ⟨⟨⟨⟨h.1.noControls, hs, trivial⟩, htame.noControls⟩, fun next => ?_⟩, fun _ => ?_⟩
      · exact ⟨⟨h.1.tidy _, trivial, ((hbegins nofun).append next).head?_ne⟩, htame.tidy next⟩
      · exact (h.1.begins.append _).append _

end Tame

namespace Phrase

/-- A text that does not begin with a space. -/
theorem text (h : NoControls s) (hbegins : Begins s.toList) : Phrase (.text style s) :=
  ⟨.text h, trivial, hbegins⟩

/-- A phrase with something behind it. -/
theorem append (ha : Phrase a) (hb : Tame b) (hgrouped : b.Grouped) : Phrase (a ++ b) :=
  ⟨ha.toTame.append hb, ⟨ha.grouped, hgrouped⟩, ha.begins.append _⟩

/-- A group, whatever breaks it has. -/
theorem group (h : Tame d) (hbegins : Begins d.flatText) : Phrase (.group d) :=
  ⟨⟨h.noControls, h.tidy⟩, trivial, hbegins⟩

/-- An indented phrase. -/
theorem nest (h : Phrase d) (indent : Nat) : Phrase (.nest indent d) :=
  ⟨h.toTame.nest indent, h.grouped, h.begins⟩

end Phrase

end Doc

namespace Expr

open Doc

/-- A constant is a phrase. -/
theorem phrase_literalDoc (v : Value) : Phrase (literalDoc v) := by
  unfold literalDoc
  split <;> exact .text (.display _) (.display _)

/-- An operand is a phrase, in parentheses and without. -/
theorem phrase_operandDoc {inner : Nat → Doc Style} (h : ∀ depth, Phrase (inner depth))
    (parens : Bool) (depth : Nat) : Phrase (operandDoc parens depth inner) := by
  cases parens with
  | false => exact h depth
  | true =>
    have hleft : Phrase (.styled (.paren depth) "(" : Doc Style) := .text (by decide) (by decide)
    have hinner := hleft.append (h (depth + 1)).toTame (h (depth + 1)).grouped
    exact .group (hinner.toTame.append (.text (by decide))) (hinner.begins.append _)

/-- A null test is a phrase. -/
theorem phrase_nullTestDoc {operand : Doc Style} (h : Phrase operand) {symbol : String}
    (hsymbol : NoControls symbol) : Phrase (nullTestDoc operand symbol) := by
  have hspace : Tame (.plain " " : Doc Style) := .text (by decide)
  have hoperator : Tame (.styled .operator symbol : Doc Style) := .text hsymbol
  have hfront := ((h.append hspace trivial).append hoperator trivial).append hspace trivial
  exact .group (hfront.toTame.append (.text (by decide))) (hfront.begins.append _)

/-- The arguments of a call are phrases if they are printed as such. -/
theorem phrases_argumentDocs {args : List Expr} (h : ∀ a ∈ args, ∀ depth, Phrase (a.toDoc depth))
    (depth : Nat) : ∀ d ∈ argumentDocs args depth, Phrase d := by
  induction args with
  | nil => exact nofun
  | cons a args ih =>
    rw [List.forall_mem_cons] at h
    rw [argumentDocs, List.forall_mem_cons]
    exact ⟨h.1 depth, ih h.2⟩

/-- A printed tree is a phrase. -/
theorem phrase_toDoc (e : Expr) (depth : Nat) : Phrase (e.toDoc depth) := by
  induction e generalizing depth with
  | const v => exact phrase_literalDoc v
  | root index type =>
    exact .text ((by decide : NoControls "$").append (.nat index))
      ((by decide : Begins "$".toList).string _)
  | field column type =>
    have hcolumn : Phrase (.styled .identifier s!"e{column}" : Doc Style) :=
      .text ((by decide : NoControls "e").append (.nat column))
        ((by decide : Begins "e".toList).string _)
    have hproperty : NoControls type.propertyName := by cases type <;> decide
    exact (hcolumn.append (.text (by decide)) trivial).append (.text hproperty) trivial
  | binary op l r ihl ihr =>
    have hl := phrase_operandDoc ihl (needsParens l (operatorStrength op) false) depth
    have hr := phrase_operandDoc ihr (needsParens r (operatorStrength op) true) depth
    have hsymbol : NoControls op.symbol := by cases op <;> decide
    have hspace : Tame (.plain " " : Doc Style) := .text (by decide)
    have hoperator : Tame (.styled .operator op.symbol : Doc Style) := .text hsymbol
    have hfront := (hl.append hspace trivial).append hoperator trivial
    exact .nest (.group (hfront.toTame.breakBefore hr.toTame hr.begins)
      ((hfront.begins.append _).append _)) 2
  | unary op a ih =>
    have hoperand := phrase_operandDoc ih (needsParens a (strength (.unary op a)) true) depth
    cases op with
    | not =>
      obtain ⟨hsymbol, hbegins⟩ : NoControls (notSymbol a) ∧ Begins (notSymbol a).toList := by
        unfold notSymbol
        split <;> decide
      exact (Phrase.text hsymbol hbegins).append hoperand.toTame hoperand.grouped
    | negate => exact (Phrase.text (by decide) (by decide)).append hoperand.toTame hoperand.grouped
    | isNull => exact phrase_nullTestDoc hoperand (by decide)
    | isNotNull => exact phrase_nullTestDoc hoperand (by decide)
    | convert target =>
      have hleft : Phrase (.styled (.paren depth) "(" : Doc Style) := .text (by decide) (by decide)
      have hlabel : Tame (.styled .keyword target.label : Doc Style) :=
        .text (by cases target <;> decide)
      have hright : Tame (.styled (.paren depth) ")" : Doc Style) := .text (by decide)
      exact ((hleft.append hlabel trivial).append hright trivial).append hoperand.toTame
        hoperand.grouped
  | call f args ih =>
    have hname : Phrase (.styled .function f.name : Doc Style) :=
      .text (by cases f <;> decide) (by cases f <;> decide)
    have hleft : Tame (.styled (.paren depth) "(" : Doc Style) := .text (by decide)
    have hright : Tame (.styled (.paren depth) ")" : Doc Style) := .text (by decide)
    have hfront := hname.append hleft trivial
    have hcomma : NoControls "," := by decide
    obtain ⟨hargs, -⟩ := Tame.intersperse (phrases_argumentDocs ih (depth + 1))
      (some Style.punctuation) hcomma
    exact .group ((hfront.toTame.append (hargs.nest 2)).append hright)
      ((hfront.begins.append _).append _)

/-- A tree as text on one line. -/
def oneLine (e : Expr) : String := String.ofList e.document.flatText

/-- Whatever groups are laid out flat, joining the lines of a printed tree gives the text on one
line, and taking the escape sequences away from the colored tree gives the printed one. -/
theorem choice_and_color_change_layout_only (e : Expr) (flat : Choice Style) :
    String.ofList (joinLines false (e.document.prettyBy flat).toList) = e.oneLine ∧
      String.ofList (stripEscapes .text (e.document.coloredBy flat).toList) =
        e.document.prettyBy flat := by
  have h : Phrase e.document := phrase_toDoc e 0
  have hline := h.noControls.mono fun s hs => hs.notMem (c := '\n') (by decide)
  have hescape := h.noControls.mono fun s hs => hs.notMem (c := '\x1b') (by decide)
  constructor
  · exact congrArg String.ofList (joinLines_prettyBy hline (h.tidy []) flat)
  · rw [stripEscapes_coloredBy hescape, String.ofList_toList]

/-- The width and the colors change the layout of a printed tree only. The text on one line has no
line feed, and it is what the tree is printed as at every width that it does not pass. At every
width, joining the lines of the printed tree gives this text, and taking the escape sequences away
from the colored tree gives the printed one. In messages a tree is printed at a width of 80. -/
theorem width_and_color_change_layout_only (e : Expr) :
    '\n' ∉ e.oneLine.toList ∧
    (∀ width, e.document.flatWidth ≤ width → e.pretty width = e.oneLine) ∧
    (∀ width, String.ofList (joinLines false (e.pretty width).toList) = e.oneLine) ∧
    (∀ width, String.ofList (stripEscapes .text (e.colored width).toList) = e.pretty width) ∧
    e.display = e.pretty 80 := by
  have h : Phrase e.document := phrase_toDoc e 0
  have hline := h.noControls.mono fun s hs => hs.notMem (c := '\n') (by decide)
  refine ⟨?_, fun width hwidth => ?_,
    fun width => (choice_and_color_change_layout_only e (groupFits width)).1,
    fun width => (choice_and_color_change_layout_only e (groupFits width)).2, rfl⟩
  · rw [oneLine, String.toList_ofList]
    exact notMem_flatText (by decide) hline
  · rw [← String.toList_inj, oneLine, String.toList_ofList]
    exact toList_pretty_eq h.grouped hwidth

/-- A match of a text with a line feed takes two lines on eight columns. They join to the text on
one line, and the line feed in quotes is none of the layout. -/
theorem match_takes_two_lines :
    let e : Expr := .like (.root 0 .string) (.stringLit "a\nb")
    e.document.flatWidth ≤ 80 ∧ e.pretty 8 = "Like($0,\n  \"a\\nb\")" ∧
      e.display = "Like($0, \"a\\nb\")" ∧
      String.ofList (joinLines false (e.pretty 8).toList) = e.display ∧
      String.ofList (stripEscapes .text (e.colored 8).toList) = e.pretty 8 := by
  intro e
  obtain ⟨-, hwide, hjoined, hplain, hdisplay⟩ := width_and_color_change_layout_only e
  have hwidth : e.document.flatWidth ≤ 80 := by decide
  have hline : e.oneLine = "Like($0, \"a\\nb\")" := by
    rw [← String.toList_inj, oneLine, String.toList_ofList]
    decide
  have hnarrow : e.pretty 8 = "Like($0,\n  \"a\\nb\")" := by
    let arguments : Doc Style := .append (.append (.text (some .identifier) "$0")
      (.append (.text (some .punctuation) ",") .line)) (.text (some .literal) "\"a\\nb\"")
    have hdocument : e.document = .group (.append (.append (.append (.text (some .function) "Like")
        (.text (some (.paren 0)) "(")) (.nest 2 arguments)) (.text (some (.paren 0)) ")")) := rfl
    rw [pretty, Doc.pretty, prettyBy, render, hdocument, layout_group_broken (by decide)]
    simp only [arguments, layout]
    decide
  rw [hdisplay, hwide 80 hwidth]
  exact ⟨hwidth, hnarrow, hline, hjoined 8, hplain 8⟩

end Expr

end QueryParity
