/-!
# Values of settings files

The values that settings are made of. Fractions, truth values and dates of the format have no use
in settings and are not represented.
-/

namespace QueryParity.Toml

/-- A value in a settings file. -/
inductive Value where
  | string (s : String)
  | integer (n : Int)
  | array (items : List Value)
  | table (entries : List (String × Value))
  deriving Repr, Inhabited

/-- The entries of a table, each key once. -/
abbrev Entries : Type := List (String × Value)

end QueryParity.Toml
