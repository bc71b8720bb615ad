import QueryParity.Toml.Integer
import QueryParity.Toml.Reader

/-!
# Written strings

Strings come in four forms: in double quotes with escapes or in single quotes without, each on one
line or, between three quotes on either side, on several. A line end right after three opening
quotes does not count, and with escapes a backslash at the end of a line drops all white space up to
the next visible character.
-/

namespace QueryParity.Toml

/-- The character with a code point written by exactly so many hexadecimal digits. -/
def codePoint? (count : Nat) (digits : List Char) : Option Char := do
  let code ← digitsValue? 16 0 digits
  if digits.length = count ∧ code.isValidChar then some (Char.ofNat code) else none

/-- The character that is written after a backslash. -/
def escapedChar : Reader Char
  | [] => none
  | letter :: rest =>
    let short (c : Char) : Option (Char × Rest (letter :: rest)) :=
      some (c, ⟨rest, Nat.lt_succ_self _⟩)
    let long (count : Nat) : Option (Char × Rest (letter :: rest)) :=
      (codePoint? count (rest.take count)).map fun c =>
        (c, ⟨rest.drop count, by simp only [List.length_drop, List.length_cons]; omega⟩)
    match letter with
    | 'b' => short '\x08'
    | 't' => short '\t'
    | 'n' => short '\n'
    | 'f' => short '\x0c'
    | 'r' => short '\r'
    | 'e' => short '\x1b'
    | '"' => short '"'
    | '\\' => short '\\'
    | 'x' => long 2
    | 'u' => long 4
    | 'U' => long 8
    | _ => none

/-- A character that stands for itself on one line. -/
def plainPiece : Reader (List Char)
  | c :: rest => if isPlain c then some ([c], ⟨rest, Nat.lt_succ_self _⟩) else none
  | [] => none

/-- A character that is written after a backslash, which stands before it. -/
def escape (rest : List Char) : Option (List Char × Rest ('\\' :: rest)) :=
  (afterFirst (escapedChar rest)).map fun (c, rest) => ([c], rest)

/-- A character that stands for itself, or an escape. -/
def escapedPiece : Reader (List Char)
  | '\\' :: rest => escape rest
  | s => plainPiece s

/-- A character that stands for itself, or a line end. -/
def linesPiece : Reader (List Char)
  | '\n' :: rest => some (['\n'], ⟨rest, Nat.lt_succ_self _⟩)
  | '\r' :: '\n' :: rest => some (['\n'], ⟨rest, by simp only [List.length_cons]; omega⟩)
  | s => plainPiece s

/-- A text without the white space and line ends at its beginning. -/
def skipBreaks : List Char → List Char
  | '\r' :: '\n' :: rest => skipBreaks rest
  | c :: rest => if isSpace c || c = '\n' then skipBreaks rest else c :: rest
  | [] => []

/-- Skipping line ends makes no text longer. -/
theorem length_skipBreaks_le (s : List Char) : (skipBreaks s).length ≤ s.length := by
  fun_induction skipBreaks s <;> simp_all <;> omega

/-- A character that stands for itself, a line end, an escape, or a line end that a backslash
drops. -/
def escapedLinesPiece : Reader (List Char)
  | '\\' :: rest =>
    match skipSpaces rest with
    | '\n' :: _ => some ([], ⟨skipBreaks rest, Nat.lt_succ_of_le (length_skipBreaks_le rest)⟩)
    | '\r' :: '\n' :: _ =>
      some ([], ⟨skipBreaks rest, Nat.lt_succ_of_le (length_skipBreaks_le rest)⟩)
    | _ => escape rest
  | s => linesPiece s

/-- One closing quote. -/
def closeOne (quote : Char) : Reader (List Char)
  | c :: rest => if c = quote then some ([], ⟨rest, Nat.lt_succ_self _⟩) else none
  | [] => none

/-- Three closing quotes, before which up to two more belong to the string. -/
def closeThree (quote : Char) : Reader (List Char)
  | a :: b :: c :: rest =>
    if a = quote ∧ b = quote ∧ c = quote then
      let more := (rest.take 2).takeWhile (· = quote)
      some (more, ⟨rest.drop more.length, by
        simp only [List.length_drop, List.length_cons]; omega⟩)
    else none
  | _ => none

/-- Pieces up to the close, which may hold a last piece. -/
def pieces (close piece : Reader (List Char)) (s : List Char) : Option (List Char × Rest s) :=
  match close s with
  | some closed => some closed
  | none =>
    match piece s with
    | none => none
    | some (cs, ⟨rest, h⟩) =>
      (within (Nat.le_of_lt h) (pieces close piece rest)).map fun (more, rest) => (cs ++ more, rest)
termination_by s.length

/-- A text without a line end at its very beginning. -/
def skipFirstBreak : List Char → List Char
  | '\n' :: rest => rest
  | '\r' :: '\n' :: rest => rest
  | s => s

/-- Skipping a line end makes no text longer. -/
theorem length_skipFirstBreak_le (s : List Char) : (skipFirstBreak s).length ≤ s.length := by
  fun_cases skipFirstBreak s with
  | case1 rest => exact Nat.le_succ rest.length
  | case2 rest => exact Nat.le_add_right rest.length 2
  | case3 => exact Nat.le_refl _

/-- A string on one line. -/
def lineString : Reader (List Char)
  | '"' :: rest => afterFirst (pieces (closeOne '"') escapedPiece rest)
  | '\x27' :: rest => afterFirst (pieces (closeOne '\x27') plainPiece rest)
  | _ => none

/-- A string of any form. -/
def anyString : Reader (List Char)
  | '"' :: '"' :: '"' :: rest =>
    within (Nat.le_trans (length_skipFirstBreak_le rest) (Nat.le_add_right _ 3))
      (pieces (closeThree '"') escapedLinesPiece (skipFirstBreak rest))
  | '\x27' :: '\x27' :: '\x27' :: rest =>
    within (Nat.le_trans (length_skipFirstBreak_le rest) (Nat.le_add_right _ 3))
      (pieces (closeThree '\x27') linesPiece (skipFirstBreak rest))
  | s => lineString s

end QueryParity.Toml
