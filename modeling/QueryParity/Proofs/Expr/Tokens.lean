import QueryParity.Expr.Printer
import QueryParity.Proofs.Text.Quoted

/-!
# Tokens of printed trees

A printed tree is a row of words, symbols, marks and quoted texts. Words and symbols are runs of
characters of one class, so they end where a character of another class follows; marks are single
characters, and a quoted text ends at its closing quote. Hence characters spell at most one row of
tokens, wherever blanks stand between them.
-/

namespace QueryParity

/-- A word: a keyword, a name or a number. -/
inductive Word where
  | null
  | bool (b : Bool)
  | number (n : Nat)
  | root (index : Nat)
  | column (index : Nat)
  | property (type : ValueType)
  | label (type : ValueType)
  | function (f : Func)
  deriving DecidableEq, Repr

namespace Word

/-- How a word is written. -/
def chars : Word → List Char
  | .null => "null".toList
  | .bool b => (if b then "true" else "false").toList
  | .number n => Nat.toDigits 10 n
  | .root index => '$' :: Nat.toDigits 10 index
  | .column index => 'e' :: Nat.toDigits 10 index
  | .property type => type.propertyName.toList
  | .label type => type.label.toList
  | .function f => f.name.toList

/-- Every word without a number. -/
def keywords : List Word :=
  [.null, .bool true, .bool false] ++ ValueType.all.map .property ++ ValueType.all.map .label ++
    Func.all.map .function

/-- Read a word from its characters. -/
def read? (cs : List Char) : Option Word :=
  match cs with
  | '$' :: digits => some (.root (Nat.ofDigitChars 10 digits 0))
  | 'e' :: digits => some (.column (Nat.ofDigitChars 10 digits 0))
  | cs =>
    if cs.all Char.isDigit then some (.number (Nat.ofDigitChars 10 cs 0))
    else keywords.find? fun word => word.chars == cs

/-- The digits of a number are digits. -/
theorem isDigit_of_mem_toDigits {n : Nat} {c : Char} (h : c ∈ Nat.toDigits 10 n) : c.isDigit :=
  Nat.isDigit_of_mem_toDigits (by decide) (by decide) h

/-- A word is read from its characters. -/
theorem read?_chars (w : Word) : read? w.chars = some w := by
  cases w with
  | null => decide
  | bool b => cases b <;> decide
  | number n =>
    have hall : (Nat.toDigits 10 n).all Char.isDigit = true :=
      List.all_eq_true.mpr fun c hc => isDigit_of_mem_toDigits hc
    have hvalue := @Nat.ofDigitChars_ten_toDigits n
    rw [chars]
    -- No digit begins a placeholder or a column.
    generalize Nat.toDigits 10 n = digits at hall hvalue ⊢
    unfold read?
    split
    · simp at hall
    · simp at hall
    · rw [if_pos hall, hvalue]
  | root index => rw [chars, read?, Nat.ofDigitChars_ten_toDigits]
  | column index => rw [chars, read?, Nat.ofDigitChars_ten_toDigits]
  | property type => cases type <;> decide
  | label type => cases type <;> decide
  | function f => cases f <;> decide

/-- No word is empty. -/
theorem chars_ne_nil (w : Word) : w.chars ≠ [] := by
  cases w with
  | null => decide
  | bool b => cases b <;> decide
  | number n => exact Nat.toDigits_ne_nil
  | root index | column index => nofun
  | property type | label type => cases type <;> decide
  | function f => cases f <;> decide

/-- Words with the same characters are the same. -/
theorem chars_inj {w w' : Word} (h : w.chars = w'.chars) : w = w' :=
  Option.some.inj ((read?_chars w).symm.trans ((congrArg read? h).trans (read?_chars w')))

end Word

/-- A symbol. The symbol of a binary operator also stands for a prefix or a null test. -/
inductive Symbol where
  | binary (op : BinaryOp)
  | bang
  | tilde
  deriving DecidableEq, Repr

namespace Symbol

/-- How a symbol is written. -/
def chars : Symbol → List Char
  | .binary op => op.symbol.toList
  | .bang => ['!']
  | .tilde => ['~']

/-- Every symbol. -/
def all : List Symbol := .bang :: .tilde :: BinaryOp.all.map .binary

/-- Read a symbol from its characters. -/
def read? (cs : List Char) : Option Symbol := all.find? fun symbol => symbol.chars == cs

/-- A symbol is read from its characters. -/
theorem read?_chars (s : Symbol) : read? s.chars = some s := by
  cases s with
  | binary op => cases op <;> decide
  | bang => decide
  | tilde => decide

/-- No symbol is empty. -/
theorem chars_ne_nil (s : Symbol) : s.chars ≠ [] := by
  cases s with
  | binary op => cases op <;> decide
  | bang | tilde => nofun

/-- Symbols with the same characters are the same. -/
theorem chars_inj {s s' : Symbol} (h : s.chars = s'.chars) : s = s' :=
  Option.some.inj ((read?_chars s).symm.trans ((congrArg read? h).trans (read?_chars s')))

end Symbol

/-- A mark, which is a single character. -/
inductive Mark where
  | left
  | right
  | comma
  | dot
  deriving DecidableEq, Repr

/-- The character of a mark. -/
def Mark.char : Mark → Char
  | .left => '('
  | .right => ')'
  | .comma => ','
  | .dot => '.'

/-- A mark is known by its character. -/
theorem Mark.char_inj {m m' : Mark} (h : m.char = m'.char) : m = m' := by
  cases m <;> cases m' <;> first | rfl | exact absurd h (by decide)

/-- A token of a printed tree. -/
inductive Token where
  | word (w : Word)
  | symbol (s : Symbol)
  | mark (m : Mark)
  | quoted (s : String)
  deriving DecidableEq, Repr

/-- What a character can begin. -/
inductive CharClass where
  | word
  | symbol
  | mark
  | quote
  | blank
  deriving DecidableEq, Repr

/-- The class of a character. Characters that no token has outside quotes count as marks. -/
def charClass (c : Char) : CharClass :=
  if c.isAlphanum || c == '_' || c == '$' then .word
  else if "+-*/%<>=!&|~".toList.contains c then .symbol
  else if c == '"' then .quote
  else if c == ' ' || c == '\n' then .blank
  else .mark

/-- The characters do not begin with one of the class. -/
def Avoids (k : CharClass) (cs : List Char) : Prop := ∀ c ∈ cs.head?, charClass c ≠ k

/-- No characters begin with none. -/
theorem avoids_nil (k : CharClass) : Avoids k [] := nofun

/-- Characters begin with the first one. -/
theorem avoids_cons_iff {k : CharClass} {c : Char} {cs : List Char} :
    Avoids k (c :: cs) ↔ charClass c ≠ k := by
  simp [Avoids]

/-- Every character of a word is of the class of words. -/
theorem Word.charClass_eq {w : Word} {c : Char} (h : c ∈ w.chars) : charClass c = .word := by
  have hdigit : ∀ {n : Nat}, c ∈ Nat.toDigits 10 n → charClass c = .word := by
    intro n hc
    simp [charClass, Char.isAlphanum, isDigit_of_mem_toDigits hc]
  have hword : ∀ {cs : List Char}, c ∈ cs → (cs.all fun c => charClass c == .word) = true →
      charClass c = .word :=
    fun hc hall => eq_of_beq (List.all_eq_true.mp hall c hc)
  cases w with
  | null => exact hword h (by decide)
  | bool b => cases b <;> exact hword h (by decide)
  | number n => exact hdigit h
  | root index | column index =>
    obtain rfl | h := List.mem_cons.mp h
    · decide
    · exact hdigit h
  | property type | label type => cases type <;> exact hword h (by decide)
  | function f => cases f <;> exact hword h (by decide)

/-- Every character of a symbol is of the class of symbols. -/
theorem Symbol.charClass_eq {s : Symbol} {c : Char} (h : c ∈ s.chars) : charClass c = .symbol := by
  have hsymbol : (s.chars.all fun c => charClass c == .symbol) = true := by
    cases s with
    | binary op => cases op <;> decide
    | bang => decide
    | tilde => decide
  exact eq_of_beq (List.all_eq_true.mp hsymbol c h)

namespace Token

/-- How a token is written. -/
def chars : Token → List Char
  | .word w => w.chars
  | .symbol s => s.chars
  | .mark m => [m.char]
  | .quoted s => Quoted.encode s.toList

/-- The class of the first character of a token. -/
def charClass : Token → CharClass
  | .word _ => .word
  | .symbol _ => .symbol
  | .mark _ => .mark
  | .quoted _ => .quote

/-- What follows cannot be taken for a part of the token: words and symbols do not continue. -/
def EndsBefore (t : Token) (cs : List Char) : Prop :=
  match t with
  | .word _ | .symbol _ => Avoids t.charClass cs
  | .mark _ | .quoted _ => True

/-- A token begins with a character of its class. -/
theorem exists_chars_eq (t : Token) :
    ∃ c cs, t.chars = c :: cs ∧ QueryParity.charClass c = t.charClass := by
  cases t with
  | word w =>
    obtain ⟨c, cs, hchars⟩ := List.exists_cons_of_ne_nil w.chars_ne_nil
    exact ⟨c, cs, hchars, Word.charClass_eq (hchars ▸ List.mem_cons_self)⟩
  | symbol s =>
    obtain ⟨c, cs, hchars⟩ := List.exists_cons_of_ne_nil s.chars_ne_nil
    exact ⟨c, cs, hchars, Symbol.charClass_eq (hchars ▸ List.mem_cons_self)⟩
  | mark m => exact ⟨m.char, [], rfl, by cases m <;> decide⟩
  | quoted s => exact ⟨'"', _, rfl, rfl⟩

/-- A text that begins with a token does not begin with a blank. -/
theorem exists_append_eq (t : Token) (cs : List Char) :
    ∃ c rest, t.chars ++ cs = c :: rest ∧ QueryParity.charClass c ≠ .blank := by
  obtain ⟨c, rest, hchars, hclass⟩ := t.exists_chars_eq
  refine ⟨c, rest ++ cs, by rw [hchars, List.cons_append], ?_⟩
  rw [hclass]
  cases t <;> nofun

/-- Runs of characters of one class that end before a character of another class are the same if
they begin the same text. -/
theorem run_append_inj {k : CharClass} {run run' cs cs' : List Char}
    (hrun : ∀ c ∈ run, QueryParity.charClass c = k)
    (hrun' : ∀ c ∈ run', QueryParity.charClass c = k)
    (hcs : Avoids k cs) (hcs' : Avoids k cs') (h : run ++ cs = run' ++ cs') :
    run = run' ∧ cs = cs' := by
  induction run generalizing run' with
  | nil =>
    cases run' with
    | nil => exact ⟨rfl, h⟩
    | cons c' run' =>
      rw [List.nil_append] at h
      exact absurd (hrun' c' List.mem_cons_self) (hcs c' (by simp [h]))
  | cons c run ih =>
    cases run' with
    | nil =>
      rw [List.nil_append] at h
      exact absurd (hrun c List.mem_cons_self) (hcs' c (by simp [← h]))
    | cons c' run' =>
      obtain ⟨rfl, hrest⟩ := List.cons.inj h
      rw [List.forall_mem_cons] at hrun hrun'
      obtain ⟨rfl, hends⟩ := ih hrun.2 hrun'.2 hrest
      exact ⟨rfl, hends⟩

/-- The same text begins with one token only, and what follows the token is the same too. -/
theorem chars_append_inj {t t' : Token} {cs cs' : List Char} (ht : t.EndsBefore cs)
    (ht' : t'.EndsBefore cs') (h : t.chars ++ cs = t'.chars ++ cs') : t = t' ∧ cs = cs' := by
  have hclass : t.charClass = t'.charClass := by
    obtain ⟨c, rest, hchars, hc⟩ := t.exists_chars_eq
    obtain ⟨c', rest', hchars', hc'⟩ := t'.exists_chars_eq
    rw [hchars, hchars'] at h
    rw [← hc, ← hc', (List.cons.inj h).1]
  cases t with
  | word w =>
    cases t' with
    | word w' =>
      obtain ⟨hw, hcs⟩ := run_append_inj (fun _ => Word.charClass_eq) (fun _ => Word.charClass_eq)
        ht ht' h
      exact ⟨congrArg word (Word.chars_inj hw), hcs⟩
    | _ => cases hclass
  | symbol s =>
    cases t' with
    | symbol s' =>
      obtain ⟨hs, hcs⟩ := run_append_inj (fun _ => Symbol.charClass_eq)
        (fun _ => Symbol.charClass_eq) ht ht' h
      exact ⟨congrArg symbol (Symbol.chars_inj hs), hcs⟩
    | _ => cases hclass
  | mark m =>
    cases t' with
    | mark m' =>
      obtain ⟨hm, hcs⟩ := List.cons.inj h
      exact ⟨congrArg mark (Mark.char_inj hm), hcs⟩
    | _ => cases hclass
  | quoted s =>
    cases t' with
    | quoted s' =>
      obtain ⟨hs, hcs⟩ := Quoted.encode_append_inj h
      exact ⟨congrArg quoted (String.toList_inj.mp hs), hcs⟩
    | _ => cases hclass

end Token

/-- The characters spell the tokens, with blanks between them where there are any. -/
inductive Spells : List Token → List Char → Prop where
  | nil : Spells [] []
  | blank {ts : List Token} {c : Char} {cs : List Char} : charClass c = .blank → Spells ts cs →
      Spells ts (c :: cs)
  | token {t : Token} {ts : List Token} {cs : List Char} : t.EndsBefore cs → Spells ts cs →
      Spells (t :: ts) (t.chars ++ cs)

/-- The characters spell one row of tokens at most. -/
theorem Spells.unique {ts ts' : List Token} {cs : List Char} (h : Spells ts cs)
    (h' : Spells ts' cs) : ts = ts' := by
  induction h generalizing ts' with
  | nil =>
    generalize htext : ([] : List Char) = text at h'
    cases h' with
    | nil => rfl
    | blank _ _ => cases htext
    | @token t _ cs _ _ =>
      obtain ⟨first, rest, hfirst, -⟩ := t.exists_append_eq cs
      cases htext.trans hfirst
  | @blank ts c cs hblank _ ih =>
    generalize htext : c :: cs = text at h'
    cases h' with
    | nil => cases htext
    | blank _ h' =>
      obtain ⟨-, rfl⟩ := List.cons.inj htext
      exact ih h'
    | @token t _ cs' _ _ =>
      obtain ⟨first, rest, hfirst, hink⟩ := t.exists_append_eq cs'
      obtain ⟨rfl, -⟩ := List.cons.inj (htext.trans hfirst)
      exact absurd hblank hink
  | @token t ts cs hends _ ih =>
    generalize htext : t.chars ++ cs = text at h'
    obtain ⟨first, rest, hfirst, hink⟩ := t.exists_append_eq cs
    cases h' with
    | nil => cases hfirst.symm.trans htext
    | blank hblank _ =>
      obtain ⟨rfl, -⟩ := List.cons.inj (hfirst.symm.trans htext)
      exact absurd hblank hink
    | token hends' h' =>
      obtain ⟨rfl, rfl⟩ := Token.chars_append_inj hends hends' htext
      rw [ih h']

end QueryParity
