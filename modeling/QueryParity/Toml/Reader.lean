/-!
# Reading from the beginning of a text

Spaces, line ends and comments, and sequences of items between brackets. A comment runs to the end
of its line and may hold no controls. A line ends with a line feed, which a carriage return may
precede.
-/

namespace QueryParity.Toml

/-- What is left of a text after a piece that is not empty. -/
abbrev Rest (s : List Char) : Type := { rest : List Char // rest.length < s.length }

/-- Reads a piece from the beginning of a text and gives it with the rest, or refuses the text. -/
abbrev Reader (α : Type) : Type := (s : List Char) → Option (α × Rest s)

/-- What was read from a part of a text, as read from the text. -/
def within {α : Type} {s t : List Char} (h : t.length ≤ s.length) (found : Option (α × Rest t)) :
    Option (α × Rest s) :=
  found.map fun (a, rest) => (a, ⟨rest.1, Nat.lt_of_lt_of_le rest.2 h⟩)

/-- What was read after the first character of a text, as read from the text. -/
def afterFirst {α : Type} {c : Char} {s : List Char} (found : Option (α × Rest s)) :
    Option (α × Rest (c :: s)) :=
  within (Nat.le_succ _) found

/-- Whether a character may stand in a comment or in a string on one line: every character that is
no control, and the tab. -/
def isPlain (c : Char) : Bool := c = '\t' || (0x20 ≤ c.toNat && c.toNat ≠ 0x7f)

/-- Whether a character is a space or a tab. -/
def isSpace (c : Char) : Bool := c = ' ' || c = '\t'

/-- A text without the spaces at its beginning. -/
def skipSpaces (s : List Char) : List Char := s.dropWhile isSpace

/-- A text without the spaces, line ends and comments at its beginning, which may lie inside a
comment. -/
def skipLines : (inComment : Bool) → List Char → Option (List Char)
  | _, [] => some []
  | _, '\n' :: rest => skipLines false rest
  | _, '\r' :: '\n' :: rest => skipLines false rest
  | true, c :: rest => if isPlain c then skipLines true rest else none
  | false, c :: rest =>
    if c = '#' then skipLines true rest
    else if isSpace c then skipLines false rest
    else some (c :: rest)

/-- Dropping characters from the beginning makes no text longer. -/
theorem length_dropWhile_le (p : Char → Bool) (s : List Char) : (s.dropWhile p).length ≤ s.length :=
  (List.dropWhile_suffix p).length_le

/-- Skipping spaces makes no text longer. -/
theorem length_skipSpaces_le (s : List Char) : (skipSpaces s).length ≤ s.length :=
  length_dropWhile_le _ s

/-- Skipping lines makes no text longer. -/
theorem length_le_of_skipLines {inComment : Bool} {s t : List Char}
    (h : skipLines inComment s = some t) : t.length ≤ s.length := by
  fun_induction skipLines inComment s <;> simp_all <;> omega

/-- What may stand between the parts of a piece. -/
inductive Gap where
  /-- Spaces on one line. -/
  | spaces
  /-- Spaces, line ends and comments. -/
  | lines
  deriving DecidableEq, Repr

/-- A text without the gap at its beginning. -/
def Gap.skip : Gap → List Char → Option (List Char)
  | .spaces, s => some (skipSpaces s)
  | .lines, s => skipLines false s

/-- Skipping a gap makes no text longer. -/
theorem Gap.length_le_of_skip {gap : Gap} {s t : List Char} (h : gap.skip s = some t) :
    t.length ≤ s.length := by
  cases gap with
  | spaces =>
    cases h
    exact length_skipSpaces_le s
  | lines => exact length_le_of_skipLines h

/-- A text after a character that is expected behind a gap. -/
def expect (gap : Gap) (c : Char) (s : List Char) : Option (Rest s) :=
  match h : gap.skip s with
  | some (d :: rest) => if d = c then some ⟨rest, Gap.length_le_of_skip h⟩ else none
  | _ => none

/-- A piece behind a gap. -/
def behind {α : Type} (gap : Gap) (piece : Reader α) : Reader α := fun s =>
  match h : gap.skip s with
  | some t => within (Gap.length_le_of_skip h) (piece t)
  | none => none

/-- Whether nothing but spaces and a comment is left on a line. -/
def endsLine (s : List Char) : Bool :=
  match skipSpaces s with
  | [] => true
  | '\n' :: _ => true
  | '\r' :: '\n' :: _ => true
  | '#' :: _ => true
  | _ => false

/-- Items between commas up to a closing bracket. A comma may follow the last item, and between the
items and commas there may be line ends and comments. -/
def sequence {α : Type} (close : Char) (item : Reader α) (s : List Char) :
    Option (List α × Rest s) :=
  match hs : skipLines false s with
  | none => none
  | some [] => none
  | some (c :: t) =>
    have ht := length_le_of_skipLines hs
    if c = close then some ([], ⟨t, ht⟩)
    else
      match item (c :: t) with
      | none => none
      | some (a, ⟨rest, hr⟩) =>
        match hl : skipLines false rest with
        | none => none
        | some [] => none
        | some (d :: u) =>
          have hu : u.length < s.length := by
            have := length_le_of_skipLines hl
            simp only [List.length_cons] at *
            omega
          if d = ',' then
            (within (Nat.le_of_lt hu) (sequence close item u)).map fun (items, rest) =>
              (a :: items, rest)
          else if d = close then some ([a], ⟨u, hu⟩)
          else none
termination_by s.length

end QueryParity.Toml
