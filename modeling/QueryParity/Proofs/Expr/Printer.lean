import QueryParity.Expr.Build
import QueryParity.Proofs.Expr.Grammar
import QueryParity.Proofs.Layout

/-!
# Printed trees are unambiguous

In every layout a printed tree spells its tokens: names and numbers are never run together, since a
mark or a blank stands between them, and a symbol is followed by a blank or by an operand that does
not begin with a symbol. Tokens are spelled in one way, and read in one way, so what a tree with
plain constants is printed as determines the tree, at every width.
-/

namespace QueryParity

open QueryParity.Expr Doc

namespace Spells

variable {t : Token} {ts : List Token} {k : CharClass} {cs blanks : List Char}

/-- A break may stand before tokens. -/
theorem append_break (hblanks : IsBreak blanks) (h : Spells ts cs) : Spells ts (blanks ++ cs) := by
  obtain ⟨-, hall⟩ := hblanks
  induction blanks with
  | nil => exact h
  | cons c blanks ih =>
    rw [List.forall_mem_cons] at hall
    refine .blank ?_ (ih hall.2)
    obtain rfl | rfl := hall.1 <;> rfl

/-- A mark may stand before all tokens. -/
theorem mark (h : Spells ts cs) (m : Mark) : Spells (.mark m :: ts) (m.char :: cs) :=
  token (t := .mark m) trivial h

/-- A word may stand before what does not continue it. -/
theorem word (h : Spells ts cs) (hcs : Avoids .word cs) (w : Word) :
    Spells (.word w :: ts) (w.chars ++ cs) :=
  token (t := .word w) hcs h

/-- A symbol may stand before what does not continue it. -/
theorem symbol (h : Spells ts cs) (hcs : Avoids .symbol cs) (s : Symbol) :
    Spells (.symbol s :: ts) (s.chars ++ cs) :=
  token (t := .symbol s) hcs h

/-- What spells tokens begins with a blank or with the first token. -/
theorem avoids (h : Spells (t :: ts) cs) (hk : t.charClass ≠ k) (hblank : k ≠ .blank) :
    Avoids k cs := by
  cases h with
  | blank hc _ => exact avoids_cons_iff.mpr (hc ▸ hblank.symm)
  | token _ _ =>
    obtain ⟨c, rest, hchars, hc⟩ := t.exists_chars_eq
    rw [hchars, List.cons_append, avoids_cons_iff, hc]
    exact hk

end Spells

/-- What begins with a break does not begin with a character of another class. -/
theorem avoids_break {k : CharClass} {blanks : List Char} (hblanks : IsBreak blanks)
    (hk : k ≠ .blank) (cs : List Char) : Avoids k (blanks ++ cs) := by
  obtain ⟨c, rest, rfl⟩ := List.exists_cons_of_ne_nil hblanks.1
  rw [List.cons_append, avoids_cons_iff]
  obtain rfl | rfl := hblanks.2 c List.mem_cons_self <;> exact hk.symm

/-- In every layout the document spells the tokens, in front of what does not continue a word. -/
def Doc.Spelled {σ : Type} (d : Doc σ) (ts : List Token) : Prop :=
  ∀ (cs tail : List Char) (rest : List Token), d.ShownAs cs → Avoids .word tail →
    Spells rest tail → Spells (ts ++ rest) (cs ++ tail)

namespace Expr

/-- An operand spells its tokens. -/
theorem spelled_operandDoc {inner : Nat → Doc Style} {ts : List Token}
    (h : ∀ depth, (inner depth).Spelled ts) (parens : Bool) (depth : Nat) :
    (operandDoc parens depth inner).Spelled (operandTokens parens ts) := by
  cases parens with
  | false => exact h depth
  | true =>
    rintro cs tail rest ⟨_, _, ⟨_, inside, rfl, hinside, rfl⟩, rfl, rfl⟩ htail hrest
    have hright := hrest.mark .right
    have hall := h (depth + 1) inside _ _ hinside (avoids_cons_iff.mpr (by decide)) hright
    simpa [operandTokens, Mark.char] using hall.mark .left

/-- The arguments of a call spell their tokens with commas between them. -/
theorem spelled_arguments {args : List Expr}
    (h : ∀ a ∈ args, ∀ depth, (a.toDoc depth).Spelled a.tokens) (depth : Nat) :
    (Doc.intersperse (.styled .punctuation "," ++ .line) (argumentDocs args depth)).Spelled
      (commaSeparated (argumentTokens args)) := by
  induction args with
  | nil =>
    rintro cs tail rest rfl _ hrest
    exact hrest
  | cons a args ih =>
    rw [List.forall_mem_cons] at h
    cases args with
    | nil =>
      rw [argumentTokens, argumentTokens, commaSeparated, List.flatMap_nil, List.append_nil]
      exact h.1 depth
    | cons b args =>
      rintro cs tail rest ⟨_, behind, ⟨front, _, hfront, ⟨_, blanks, rfl, hblanks, rfl⟩, rfl⟩,
        hbehind, rfl⟩ htail hrest
      have htokens := (ih h.2 behind tail rest hbehind htail hrest).append_break hblanks
      have hall := h.1 depth front _ _ hfront (avoids_cons_iff.mpr (by decide))
        (htokens.mark .comma)
      simpa [commaSeparated, argumentTokens, Mark.char] using hall

/-- A text with a number behind it ends with the digits of the number. -/
theorem toList_append_toString (s : String) (n : Nat) :
    (s ++ toString n).toList = s.toList ++ Nat.toDigits 10 n := by
  rw [String.toList_append, Nat.toString_eq_repr, Nat.toList_repr]

/-- A plain constant spells its token. -/
theorem spelled_literalDoc {v : Value} (hv : v.IsPlain) :
    (literalDoc v).Spelled (literalTokens v) := by
  cases v with
  | bool b =>
    rintro cs tail rest rfl htail hrest
    exact hrest.word htail (.bool b)
  | int n =>
    rintro cs tail rest rfl htail hrest
    have hn : (toString n.toInt).toList = (Word.number n.toInt.toNat).chars := by
      rw [← Int.toNat_of_nonneg hv]
      exact Nat.toList_repr
    rw [Value.display, hn]
    exact hrest.word htail _
  | string s =>
    rintro cs tail rest rfl _ hrest
    rw [Value.display, quoted, String.toList_ofList]
    exact .token (t := .quoted s) trivial hrest
  | null _ | dateTime _ => cases hv

/-- Behind an operator that is written before its operand no symbol follows. -/
theorem exists_operandTokens_eq {a : Expr} (ha : a.PlainConstants) :
    ∃ t ts, operandTokens (needsParens a 10 true) a.tokens = t :: ts ∧ t.charClass ≠ .symbol := by
  cases hparens : needsParens a 10 true with
  | true => exact ⟨_, _, rfl, nofun⟩
  | false =>
    have hstrength := lt_strength_of_not_needsParens hparens
    cases a with
    | const v =>
      have hv := ha v (self_mem_preorder _)
      cases v with
      | null _ | dateTime _ => cases hv
      | _ => exact ⟨_, _, rfl, nofun⟩
    | binary op l r => exact absurd hstrength (Nat.not_lt.mpr (stops_ten _ op [] rfl))
    | unary op b => exact absurd hstrength (Nat.not_lt.mpr (strength_unary_le op b))
    | _ => exact ⟨_, _, rfl, nofun⟩

/-- An operator that is written before its operand spells its symbol and the operand. -/
theorem spelled_beforeOperand {a : Expr} (ha : a.PlainConstants) {operand : Doc Style}
    (h : operand.Spelled (operandTokens (needsParens a 10 true) a.tokens)) {text : String}
    {symbol : Symbol} (htext : text.toList = symbol.chars) :
    (.styled .operator text ++ operand : Doc Style).Spelled
      (.symbol symbol :: operandTokens (needsParens a 10 true) a.tokens) := by
  rintro cs tail rest ⟨_, inside, rfl, hinside, rfl⟩ htail hrest
  have hoperand := h inside tail rest hinside htail hrest
  have havoids : Avoids .symbol (inside ++ tail) := by
    obtain ⟨t, ts, htokens, hclass⟩ := exists_operandTokens_eq ha
    rw [htokens] at hoperand
    exact hoperand.avoids hclass (by decide)
  have hall := hoperand.symbol havoids symbol
  rwa [htext, List.append_assoc]

/-- A negation has its symbol. -/
theorem toList_notSymbol (a : Expr) : (notSymbol a).toList = (negation a).chars := by
  unfold notSymbol negation
  cases a.infer with
  | error reason => simp [Symbol.chars]
  | ok type => cases type <;> rfl

/-- A null test spells its operand, the symbol and the word `null`. -/
theorem spelled_nullTestDoc {operand : Doc Style} {ts : List Token} (h : operand.Spelled ts)
    (op : BinaryOp) :
    (nullTestDoc operand op.symbol).Spelled (ts ++ [.symbol (.binary op), .word .null]) := by
  rintro cs tail rest ⟨_, _, ⟨_, _, ⟨_, _, ⟨inside, _, hinside, rfl, rfl⟩, rfl, rfl⟩, rfl, rfl⟩,
    rfl, rfl⟩ htail hrest
  have hnull := (hrest.word htail .null).append_break isBreak_space
  have hop := (hnull.symbol (avoids_break isBreak_space (by decide) _) (.binary op)).append_break
    isBreak_space
  have hall := h inside _ _ hinside (avoids_break isBreak_space (by decide) _) hop
  simpa [Symbol.chars, Word.chars] using hall

/-- A conversion spells its target in parentheses and the operand. -/
theorem spelled_convert {operand : Doc Style} {ts : List Token} (h : operand.Spelled ts)
    (target : ValueType) (depth : Nat) :
    (.styled (.paren depth) "(" ++ .styled .keyword target.label ++ .styled (.paren depth) ")" ++
      operand : Doc Style).Spelled
      (.mark .left :: .word (.label target) :: .mark .right :: ts) := by
  rintro cs tail rest ⟨_, inside, ⟨_, _, ⟨_, _, rfl, rfl, rfl⟩, rfl, rfl⟩, hinside, rfl⟩ htail hrest
  have hright := (h inside tail rest hinside htail hrest).mark .right
  have hall := (hright.word (avoids_cons_iff.mpr (by decide)) (.label target)).mark .left
  simpa [Mark.char, Word.chars] using hall

/-- A printed tree spells its tokens. -/
theorem spelled_toDoc (e : Expr) (he : e.PlainConstants) (depth : Nat) :
    (e.toDoc depth).Spelled e.tokens := by
  induction e generalizing depth with
  | const v => exact spelled_literalDoc (he v (self_mem_preorder _))
  | root index type =>
    rintro cs tail rest rfl htail hrest
    have hindex : s!"${index}".toList = (Word.root index).chars :=
      toList_append_toString "$" index
    rw [hindex]
    exact hrest.word htail _
  | field column type =>
    rintro cs tail rest ⟨_, _, ⟨_, _, rfl, rfl, rfl⟩, rfl, rfl⟩ htail hrest
    have hcolumn : s!"e{column}".toList = (Word.column column).chars :=
      toList_append_toString "e" column
    have hproperty := (hrest.word htail (.property type)).mark .dot
    have hall := hproperty.word (avoids_cons_iff.mpr (by decide)) (.column column)
    rw [hcolumn]
    simpa [tokens, Mark.char, Word.chars] using hall
  | binary op l r ihl ihr =>
    have hl := spelled_operandDoc (ihl fun v hv => he v (by simp [hv]))
      (needsParens l (operatorStrength op) false) depth
    have hr := spelled_operandDoc (ihr fun v hv => he v (by simp [hv]))
      (needsParens r (operatorStrength op) true) depth
    rintro cs tail rest ⟨_, right, ⟨_, blanks, ⟨_, _, ⟨left, _, hleft, rfl, rfl⟩, rfl, rfl⟩,
      hblanks, rfl⟩, hright, rfl⟩ htail hrest
    have htokens := (hr right tail rest hright htail hrest).append_break hblanks
    have hop := (htokens.symbol (avoids_break hblanks (by decide) _) (.binary op)).append_break
      isBreak_space
    have hall := hl left _ _ hleft (avoids_break isBreak_space (by decide) _) hop
    simpa [tokens, Symbol.chars] using hall
  | unary op a ih =>
    have ha : a.PlainConstants := fun v hv => he v (by simp [hv])
    have hoperand := spelled_operandDoc (ih ha) (needsParens a (strength (.unary op a)) true) depth
    cases op with
    | not => exact spelled_beforeOperand ha hoperand (toList_notSymbol a)
    | negate => exact spelled_beforeOperand ha hoperand rfl
    | isNull => exact spelled_nullTestDoc hoperand .equal
    | isNotNull => exact spelled_nullTestDoc hoperand .notEqual
    | convert target => exact spelled_convert hoperand target depth
  | call f args ih =>
    have hplain : ∀ a ∈ args, a.PlainConstants := fun a ha v hv =>
      he v (mem_preorder_of_mem_args ha hv)
    have hargs := spelled_arguments (fun a ha => ih a ha (hplain a ha)) (depth + 1)
    rintro cs tail rest ⟨_, _, ⟨_, inside, ⟨_, _, rfl, rfl, rfl⟩, hinside, rfl⟩, rfl, rfl⟩ htail
      hrest
    have hright := hrest.mark .right
    have hinner := hargs inside _ _ hinside (avoids_cons_iff.mpr (by decide)) hright
    have hall := (hinner.mark .left).word (avoids_cons_iff.mpr (by decide)) (.function f)
    simpa [tokens, Mark.char, Word.chars] using hall

/-- The printer is unambiguous: trees whose constants are booleans, strings and integers without
sign, and which are printed as the same text, differ in the types of their placeholders at most. The
trees may be of any shape and nested to any depth, and they may be printed at different widths. -/
theorem pretty_determines_tree (width width' : Nat) (e e' : Expr) (he : e.PlainConstants)
    (he' : e'.PlainConstants) (h : e.pretty width = e'.pretty width') : e.SameUpToRootTypes e' := by
  have hspells : ∀ (e : Expr) (width : Nat), e.PlainConstants →
      Spells (e.tokens ++ []) ((e.pretty width).toList ++ []) := by
    intro e width he
    have hshown := shownAs_prettyBy (groupFits width) e.document
    exact spelled_toDoc e he 0 _ _ _ hshown (avoids_nil _) .nil
  have hspells' := hspells e' width' he'
  rw [← h] at hspells'
  have htokens := (hspells e width he).unique hspells'
  rw [List.append_nil, List.append_nil] at htokens
  exact sameUpToRootTypes_of_tokens_eq he he' htokens

/-- The text `Like($0, "a\"%") || !($1 - 5 == null == true)` shows the whole tree, except the types
of its two placeholders; on lines of 20 columns too. -/
theorem match_or_negation_determines_tree :
    let e (type : ValueType) : Expr := .orElse (.like (.root 0 type) (.stringLit "a\"%"))
      (.not (.equal (.isNull (.subtract (.root 1 type) (.intLit 5))) (.boolLit true)))
    (e .string).pretty 20 = (e .int).pretty 20 ∧ e .string ≠ e .int ∧
      (e .string).SameUpToRootTypes (e .int) := by
  intro e
  have hplain : ∀ type, (e type).PlainConstants := by
    intro type v hv
    obtain rfl | rfl | rfl : v = .string "a\"%" ∨ v = .int 5 ∨ v = .bool true := by
      simpa [e, orElse, like, not, equal, isNull, subtract, stringLit, intLit, boolLit] using hv
    · trivial
    · change 0 ≤ Int32.toInt 5
      decide
    · trivial
  have hsame : (e .string).pretty 20 = (e .int).pretty 20 := congrArg (Doc.pretty 20) rfl
  exact ⟨hsame, nofun, pretty_determines_tree 20 20 _ _ (hplain _) (hplain _) hsame⟩

end Expr

end QueryParity
