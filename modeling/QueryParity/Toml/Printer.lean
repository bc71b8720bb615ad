import QueryParity.Toml.Document

/-!
# Written settings

One line per entry: the key, an equals sign and the value. Integers are decimal, strings stand in
double quotes, and the items of an array stand between brackets, separated by commas.
-/

namespace QueryParity.Toml

/-- The written form of a character inside double quotes. -/
def writtenChar (c : Char) : List Char :=
  if c = '"' ∨ c = '\\' then ['\\', c]
  else if isPlain c then [c]
  else ['\\', 'U'] ++ (Nat.toDigits 16 (0x100000000 + c.toNat)).tail

/-- The written form of a string. -/
def writtenString (s : String) : List Char := '"' :: (s.toList.flatMap writtenChar ++ ['"'])

/-- The written form of a key, without quotes where none are needed. -/
def writtenKey (key : String) : List Char :=
  if key.toList ≠ [] ∧ key.toList.all isKeyChar then key.toList else writtenString key

mutual

/-- The written form of a value. -/
def Value.written : Value → List Char
  | .string s => writtenString s
  | .integer n => (toString n).toList
  | .array items => '[' :: (writtenItems items ++ [']'])
  | .table entries => '\x7b' :: (writtenEntries entries ++ ['\x7d'])

/-- The written form of items, separated by commas. -/
def writtenItems : List Value → List Char
  | [] => []
  | [v] => v.written
  | v :: items => v.written ++ ',' :: ' ' :: writtenItems items

/-- The written form of entries, separated by commas. -/
def writtenEntries : List (String × Value) → List Char
  | [] => []
  | [(key, v)] => ' ' :: (writtenKey key ++ ' ' :: '=' :: ' ' :: (v.written ++ [' ']))
  | (key, v) :: entries =>
    ' ' :: (writtenKey key ++ ' ' :: '=' :: ' ' :: (v.written ++ ',' :: writtenEntries entries))

end

/-- The written form of an entry on a line of its own. -/
def writtenLine (entry : String × Value) : List Char :=
  writtenKey entry.1 ++ ' ' :: '=' :: ' ' :: (entry.2.written ++ ['\n'])

/-- The written form of a document. -/
def written (entries : Entries) : List Char := entries.flatMap writtenLine

end QueryParity.Toml
