import QueryParity.Layout.Style
import QueryParity.Proofs.Layout.Lines

/-!
# Colored layouts without their escape sequences

A terminal takes the escape character, a bracket and what follows up to a final character as a
change of looks and shows all other characters. What it shows of a colored document is the text of
the document, since no text of it has an escape character.
-/

namespace QueryParity

/-- Where a terminal stands in the characters that it reads. -/
inductive Scan where
  /-- Between escape sequences. -/
  | text
  /-- Behind an escape character. -/
  | escape
  /-- Behind the bracket of an escape sequence. -/
  | parameters
  deriving DecidableEq, Repr

/-- The characters that end an escape sequence. -/
def IsFinal (c : Char) : Prop := 0x40 ≤ c.toNat ∧ c.toNat ≤ 0x7e

instance (c : Char) : Decidable (IsFinal c) := inferInstanceAs (Decidable (_ ∧ _))

/-- A text that ends no escape sequence. -/
def IsParameter (s : String) : Prop := ∀ c ∈ s.toList, ¬ IsFinal c

instance (s : String) : Decidable (IsParameter s) := List.decidableBAll _ _

/-- The characters that are left without escape sequences. -/
def stripEscapes (state : Scan) : List Char → List Char
  | [] => []
  | c :: cs =>
    match state with
    | .text => if c = '\x1b' then stripEscapes .escape cs else c :: stripEscapes .text cs
    | .escape => stripEscapes (if c = '[' then .parameters else .text) cs
    | .parameters => stripEscapes (if IsFinal c then .text else .parameters) cs

/-- Characters without an escape are left as they are. -/
theorem stripEscapes_append {cs : List Char} (h : '\x1b' ∉ cs) (rest : List Char) :
    stripEscapes .text (cs ++ rest) = cs ++ stripEscapes .text rest := by
  induction cs with
  | nil => rfl
  | cons c cs ih =>
    obtain ⟨hc, hcs⟩ := not_or.mp (mt List.mem_cons.mpr h)
    rw [List.cons_append, stripEscapes, if_neg (Ne.symm hc), ih hcs, List.cons_append]

/-- The parameters of an escape sequence go with the final character. -/
theorem stripEscapes_parameters {cs : List Char} (h : ∀ c ∈ cs, ¬ IsFinal c) {final : Char}
    (hfinal : IsFinal final) (rest : List Char) :
    stripEscapes .parameters (cs ++ final :: rest) = stripEscapes .text rest := by
  induction cs with
  | nil => rw [List.nil_append, stripEscapes, if_pos hfinal]
  | cons c cs ih =>
    rw [List.forall_mem_cons] at h
    rw [List.cons_append, stripEscapes, if_neg h.1, ih h.2]

/-- An escape sequence goes. -/
theorem stripEscapes_escapeSequence {parameter : String} (h : IsParameter parameter)
    (rest : List Char) :
    stripEscapes .text ((escapeSequence parameter).toList ++ rest) = stripEscapes .text rest := by
  have hchars : (escapeSequence parameter).toList ++ rest =
      '\x1b' :: '[' :: (parameter.toList ++ 'm' :: rest) := by
    simp [escapeSequence]
  rw [hchars, stripEscapes, if_pos rfl, stripEscapes, if_pos rfl]
  exact stripEscapes_parameters h (by decide) rest

/-- The sequence that ends a look goes. -/
theorem stripEscapes_resetSequence (rest : List Char) :
    stripEscapes .text (resetSequence.toList ++ rest) = stripEscapes .text rest :=
  stripEscapes_escapeSequence (by decide) rest

/-- The sequences that begin a look go. -/
theorem stripEscapes_sequences (l : Look) (rest : List Char) :
    stripEscapes .text (l.sequences.toList ++ rest) = stripEscapes .text rest := by
  have hflag (flag : Bool) {parameter : String} (h : IsParameter parameter) (rest : List Char) :
      stripEscapes .text ((if flag then escapeSequence parameter else "").toList ++ rest) =
        stripEscapes .text rest := by
    cases flag with
    | false => rfl
    | true => exact stripEscapes_escapeSequence h rest
  rw [Look.sequences, String.toList_append, String.toList_append, String.toList_append,
    List.append_assoc, List.append_assoc, List.append_assoc, stripEscapes_resetSequence,
    hflag _ (by decide), hflag _ (by decide)]
  cases l.color with
  | none => rfl
  | some color => exact stripEscapes_escapeSequence (by cases color <;> decide) rest

namespace Doc

/-- Without escape sequences, a colored piece is its text. -/
theorem stripEscapes_piece {piece : Piece Style} (h : piece.Carries fun s => '\x1b' ∉ s.toList)
    (rest : List Char) :
    stripEscapes .text (piece.colored.toList ++ rest) =
      piece.toString.toList ++ stripEscapes .text rest := by
  cases piece with
  | text style s =>
    cases style with
    | none => exact stripEscapes_append h rest
    | some style =>
      rw [Piece.colored, String.toList_append, String.toList_append, List.append_assoc,
        List.append_assoc, stripEscapes_sequences, stripEscapes_append h,
        stripEscapes_resetSequence, Piece.toString]
  | newline indent =>
    refine stripEscapes_append (fun hescape => ?_) rest
    obtain h | h := (isBreak_newlineText indent).2 _ hescape <;> cases h

/-- Without escape sequences, colored pieces are their text. -/
theorem stripEscapes_pieces {pieces : List (Piece Style)}
    (h : ∀ piece ∈ pieces, piece.Carries fun s => '\x1b' ∉ s.toList) :
    stripEscapes .text (pieces.flatMap fun piece => piece.colored.toList) = chars pieces := by
  induction pieces with
  | nil => rfl
  | cons piece pieces ih =>
    rw [List.forall_mem_cons] at h
    rw [List.flatMap_cons, stripEscapes_piece h.1, ih h.2]
    rfl

/-- By every choice of flat groups, a colored document without its escape sequences is the plain
one. -/
theorem stripEscapes_coloredBy {d : Doc Style} (htexts : d.EveryText fun s => '\x1b' ∉ s.toList)
    (flat : Choice Style) :
    stripEscapes .text (d.coloredBy flat).toList = (d.prettyBy flat).toList := by
  have hpieces := carries_layout (by decide) flat [⟨0, .broken, d⟩] 0
    (List.forall_mem_singleton.mpr htexts)
  rw [coloredBy, String.toList_join, List.flatMap_map, toList_prettyBy,
    ← stripEscapes_pieces hpieces]
  rfl

end Doc

end QueryParity
