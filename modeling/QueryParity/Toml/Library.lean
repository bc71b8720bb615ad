import QueryParity.Toml.Printer

/-!
# Libraries for settings files

Settings are written and read by some library for the format. Which of the texts that say the same
it writes, whether it writes integers beyond 63 bits, and how it reads what no settings are made of
is left to the library. What is asked of it is that integers, strings and arrays of strings are
written and read according to the format.
-/

namespace QueryParity.Toml

/-- A library that writes and reads settings files. -/
structure Library where
  /-- The text for some entries, or why they cannot be written. -/
  write : Entries → Except String String
  /-- The entries of a text, if it is a settings file. -/
  read : String → Option Entries

/-- A value of the kinds that settings have: a natural number below a limit, a string or an array of
strings. -/
inductive Value.IsSetting (limit : Nat) : Value → Prop
  | integer {n : Nat} (h : n < limit) : IsSetting limit (.integer n)
  | string (s : String) : IsSetting limit (.string s)
  | strings (items : List String) : IsSetting limit (.array (items.map .string))

/-- Entries under different keys with values of the kinds that settings have. -/
structure AreSettings (limit : Nat) (entries : Entries) : Prop where
  /-- No key occurs twice. -/
  nodup_keys : (entries.map Prod.fst).Nodup
  /-- The values. -/
  values : ∀ entry ∈ entries, entry.2.IsSetting limit

/-- The first natural number that takes more than 63 bits. -/
def signedLimit : Nat := 0x8000000000000000

/-- A library that writes and reads settings according to the format. -/
structure Library.Conforms (lib : Library) : Prop where
  /-- A written text has the entries that it was written for. -/
  write_means : ∀ entries text, AreSettings UInt64.size entries → lib.write entries = .ok text →
    Toml.read text.toList = some entries
  /-- A text is read as the entries that it has. -/
  read_means : ∀ entries text, AreSettings UInt64.size entries →
    Toml.read text.toList = some entries → lib.read text = some entries
  /-- Entries whose numbers take at most 63 bits can be written. -/
  exists_write : ∀ entries, AreSettings signedLimit entries → ∃ text, lib.write entries = .ok text

/-- The library that is in use. It writes numbers of every size. -/
def Library.standard : Library where
  write entries := .ok (String.ofList (written entries))
  read text := Toml.read text.toList

end QueryParity.Toml
