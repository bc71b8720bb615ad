import QueryParity.Expr.Printer
import QueryParity.Proofs.Expr.Walk

/-!
# Levels of printed trees

Every pair of parentheses in a printed tree has a depth that does not pass the levels of the tree.
So the depths in a printable tree are bytes, and the color of parentheses is that of their depth. A
tree has no more levels than it is deep, and some trees have no fewer.
-/

namespace QueryParity

/-- The depth of parentheses; other tokens are at depth zero. -/
def Style.parenDepth : Style → Nat
  | .paren depth => depth
  | _ => 0

namespace Doc

variable {σ : Type} {p q : σ → Prop} {a b d : Doc σ}

/-- Every style of a document has a property. -/
def EveryStyle (p : σ → Prop) : Doc σ → Prop
  | .text style _ => ∀ s, style = some s → p s
  | .append a b => a.EveryStyle p ∧ b.EveryStyle p
  | .group d => d.EveryStyle p
  | .nest _ d => d.EveryStyle p
  | _ => True

namespace EveryStyle

/-- A weaker property holds of every style too. -/
theorem mono (h : d.EveryStyle p) (hpq : ∀ s, p s → q s) : d.EveryStyle q := by
  induction d with
  | empty | line => trivial
  | text style s => exact fun s hs => hpq s (h s hs)
  | append a b iha ihb => exact ⟨iha h.1, ihb h.2⟩
  | group d ih | nest indent d ih => exact ih h

/-- A text without style. -/
theorem plain (s : String) : (Doc.plain s).EveryStyle p := by
  intro style h
  cases h

/-- A text with a style. -/
theorem styled {style : σ} (h : p style) (s : String) : (Doc.styled style s).EveryStyle p := by
  intro style' hstyle
  cases hstyle
  exact h

/-- Documents in a row with a separator between neighbours. -/
theorem intersperse {separator : Doc σ} (hseparator : separator.EveryStyle p) {ds : List (Doc σ)}
    (h : ∀ d ∈ ds, d.EveryStyle p) : (Doc.intersperse separator ds).EveryStyle p := by
  induction ds with
  | nil => trivial
  | cons d ds ih =>
    rw [List.forall_mem_cons] at h
    cases ds with
    | nil => exact h.1
    | cons d' ds => exact ⟨⟨h.1, hseparator⟩, ih h.2⟩

end EveryStyle

end Doc

namespace Expr

open Doc

/-- Parentheses are no deeper than a limit. -/
def AtMost (limit : Nat) (style : Style) : Prop := style.parenDepth ≤ limit

/-- Tokens other than parentheses are within every limit. -/
theorem everyStyle_token {style : Style} (h : style.parenDepth = 0) (limit : Nat) (s : String) :
    (Doc.styled style s).EveryStyle (AtMost limit) := by
  have hlimit : AtMost limit style := Nat.le_trans (Nat.le_of_eq h) (Nat.zero_le limit)
  exact .styled hlimit s

/-- Documents at a depth that have the given levels of parentheses at most. -/
def Within (inner : Nat → Doc Style) (levels : Nat) : Prop :=
  ∀ depth limit, depth + levels ≤ limit → (inner depth).EveryStyle (AtMost limit)

/-- An operand has one level more with parentheses around it. -/
theorem within_operandDoc {inner : Nat → Doc Style} {levels : Nat} (h : Within inner levels)
    (parens : Bool) :
    Within (fun depth => operandDoc parens depth inner) (levels + parens.toNat) := by
  intro depth limit hlimit
  cases parens with
  | false => exact h depth limit hlimit
  | true =>
    rw [Bool.toNat_true] at hlimit
    have hparen : AtMost limit (.paren depth) := by
      rw [AtMost, Style.parenDepth]
      omega
    exact ⟨⟨.styled hparen _, h (depth + 1) limit (by omega)⟩, .styled hparen _⟩

/-- A null test has the parentheses of its operand. -/
theorem everyStyle_nullTestDoc {operand : Doc Style} {limit : Nat}
    (h : operand.EveryStyle (AtMost limit)) (symbol : String) :
    (nullTestDoc operand symbol).EveryStyle (AtMost limit) :=
  ⟨⟨⟨⟨h, .plain _⟩, everyStyle_token rfl limit _⟩, .plain _⟩, everyStyle_token rfl limit _⟩

/-- The arguments of a call are a level deeper than the call. -/
theorem everyStyle_argumentDocs {args : List Expr} (h : ∀ a ∈ args, Within a.toDoc a.nesting)
    {depth limit : Nat} (hlimit : depth + argumentNesting args ≤ limit) :
    ∀ d ∈ argumentDocs args (depth + 1), d.EveryStyle (AtMost limit) := by
  induction args with
  | nil => exact List.forall_mem_nil _
  | cons a args ih =>
    rw [List.forall_mem_cons] at h
    rw [argumentNesting] at hlimit
    rw [argumentDocs, List.forall_mem_cons]
    exact ⟨h.1 (depth + 1) limit (by omega), ih h.2 (by omega)⟩

/-- The document of a tree has the levels of the tree at most. -/
theorem within_toDoc (e : Expr) : Within e.toDoc e.nesting := by
  induction e with
  | const v =>
    intro depth limit _
    unfold toDoc literalDoc
    split <;> exact everyStyle_token rfl limit _
  | root index type => exact fun _ limit _ => everyStyle_token rfl limit _
  | field column type =>
    intro depth limit _
    exact ⟨⟨everyStyle_token rfl limit _, everyStyle_token rfl limit _⟩,
      everyStyle_token rfl limit _⟩
  | binary op l r ihl ihr =>
    intro depth limit hlimit
    rw [nesting] at hlimit
    have hl := within_operandDoc ihl (needsParens l (operatorStrength op) false) depth limit
      (by omega)
    have hr := within_operandDoc ihr (needsParens r (operatorStrength op) true) depth limit
      (by omega)
    exact ⟨⟨⟨⟨hl, .plain _⟩, everyStyle_token rfl limit _⟩, trivial⟩, hr⟩
  | unary op a ih =>
    intro depth limit hlimit
    have hparen : AtMost limit (.paren depth) := Nat.le_trans (Nat.le_add_right _ _) hlimit
    have hoperand := within_operandDoc ih _ depth limit hlimit
    cases op with
    | not => exact ⟨everyStyle_token rfl limit _, hoperand⟩
    | negate => exact ⟨everyStyle_token rfl limit _, hoperand⟩
    | isNull => exact everyStyle_nullTestDoc hoperand "=="
    | isNotNull => exact everyStyle_nullTestDoc hoperand "!="
    | convert target =>
      exact ⟨⟨⟨.styled hparen _, everyStyle_token rfl limit _⟩, .styled hparen _⟩, hoperand⟩
  | call f args ih =>
    intro depth limit hlimit
    have hparen : AtMost limit (.paren depth) := Nat.le_trans (Nat.le_add_right _ _) hlimit
    have hcomma : (Doc.styled Style.punctuation "," ++ Doc.line).EveryStyle (AtMost limit) :=
      ⟨everyStyle_token rfl limit _, trivial⟩
    have hargs := EveryStyle.intersperse hcomma (everyStyle_argumentDocs ih hlimit)
    exact ⟨⟨⟨everyStyle_token rfl limit _, .styled hparen _⟩, hargs⟩, .styled hparen _⟩

/-- The depth of every pair of parentheses in a printable tree is a byte. -/
theorem parenDepth_lt_of_isPrintable {e : Expr} (h : e.isPrintable = true) :
    e.document.EveryStyle fun s => s.parenDepth < UInt8.size := by
  have hnesting : e.nesting < UInt8.size := of_decide_eq_true h
  exact (within_toDoc e 0 e.nesting (Nat.le_of_eq (Nat.zero_add _))).mono
    fun _ hs => Nat.lt_of_le_of_lt hs hnesting

/-- A tree has no more levels than it is high. -/
theorem nesting_le_height (e : Expr) : e.nesting ≤ e.height := by
  induction e with
  | const v => exact Nat.le_refl 0
  | root index type => exact Nat.le_refl 0
  | field column type => exact Nat.le_refl 0
  | binary op l r ihl ihr =>
    have hl := Bool.toNat_le (needsParens l (operatorStrength op) false)
    have hr := Bool.toNat_le (needsParens r (operatorStrength op) true)
    rw [nesting, height]
    omega
  | unary op a ih =>
    have ha := Bool.toNat_le (needsParens a (strength (.unary op a)) true)
    rw [nesting, height]
    omega
  | call f args ih =>
    rw [nesting, height]
    induction args with
    | nil => exact Nat.le_refl 0
    | cons a args ihargs =>
      rw [List.forall_mem_cons] at ih
      have hrest := ihargs ih.2
      rw [argumentNesting, heightBelow]
      omega

/-- A tree that is less than 256 levels deep is printable. -/
theorem isPrintable_of_depth_lt {e : Expr} (h : e.depth < UInt8.size) : e.isPrintable = true := by
  rw [depth_eq_height] at h
  exact decide_eq_true (Nat.lt_of_le_of_lt e.nesting_le_height h)

/-- A tree under so many negations. -/
def negations : Nat → Expr → Expr
  | 0, e => e
  | n + 1, e => .unary .not (negations n e)

/-- Of negations one under the other, all but the innermost put their operand in parentheses. -/
theorem nesting_negations (n : Nat) {e : Expr} (h : e.nesting = 0) (hstrength : 10 < e.strength) :
    (negations (n + 1) e).nesting = n := by
  induction n with
  | zero =>
    have hparens : needsParens e 10 true = false := by
      simp [needsParens, Nat.not_lt_of_gt hstrength, Nat.ne_of_gt hstrength]
    change e.nesting + (needsParens e 10 true).toNat = 0
    rw [h, hparens, Bool.toNat_false]
  | succ n ih =>
    have hparens : needsParens (negations (n + 1) e) 10 true = true := by
      simp [needsParens, negations, strength]
    change (negations (n + 1) e).nesting + (needsParens (negations (n + 1) e) 10 true).toNat = n + 1
    rw [ih, hparens, Bool.toNat_true]

end Expr

end QueryParity
