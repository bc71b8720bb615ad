import QueryParity.Text.Visible

/-!
# Quoted text

A text in double quotes. Visible characters stand for themselves; the quote, the backslash and
five controls have short escapes; every other character is written as its hexadecimal code point.
-/

namespace QueryParity

namespace Quoted

/-- The written form of one character. -/
def escape (c : Char) : List Char :=
  match c with
  | '\x00' => ['\\', '0']
  | '\t' => ['\\', 't']
  | '\r' => ['\\', 'r']
  | '\n' => ['\\', 'n']
  | '"' => ['\\', '"']
  | '\\' => ['\\', '\\']
  | c => if isVisible c then [c] else ['\\', 'u', '\x7b'] ++ Nat.toDigits 16 c.toNat ++ ['\x7d']

/-- The characters of a text between quotes, escaped one by one. -/
def encode (cs : List Char) : List Char := '"' :: (cs.flatMap escape ++ ['"'])

end Quoted

/-- A text in double quotes with its special characters escaped. -/
def quoted (s : String) : String := String.ofList (Quoted.encode s.toList)

end QueryParity
