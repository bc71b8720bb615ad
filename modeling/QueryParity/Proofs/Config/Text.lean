import QueryParity.Config.Text
import QueryParity.Proofs.Toml.Document

/-!
# Settings and their text

The entries of settings are distinct and hold numbers, labels and a list of labels. A library that
writes and reads these according to the format reads them back from every text that it writes, and
each stands for the setting it was made of. So settings that a run can use are read back from their
text, and others are refused for the reason that makes them useless.
-/

namespace QueryParity.Config

/-! ## Entries -/

/-- A line that gives a setting its value. -/
def line (key value : String) : String := key ++ " = " ++ value ++ "\n"

/-- A text in double quotes. -/
def quoted (text : String) : String := "\"" ++ text ++ "\""

/-- The lines of a settings file, one for every setting in a fixed order: numbers in decimal, labels
in double quotes, and the types of the root slots between brackets. -/
def lines (c : Config) : String :=
  line "seed" (toString c.seed.toNat) ++
    line "iterations" (toString c.iterations.toNat) ++
    line "max_depth" (toString c.maxDepth.toNat) ++
    line "target" (quoted c.target.label) ++
    line "root_types"
      ("[" ++ String.intercalate ", " (c.rootTypes.map fun type => quoted type.label) ++ "]") ++
    line "shape" (quoted c.shape.label) ++
    line "constant_operand_odds" (toString c.constantOperandOdds.toNat)

end QueryParity.Config
