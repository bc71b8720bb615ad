import QueryParity.Text.CodePoints

/-!
# Blank characters

The characters with the Unicode property `White_Space`.
-/

namespace QueryParity

/-- The code points with the property `White_Space`. -/
def CodePoints.blank : CodePoints := ⟨[
    0x9, 0xe, 0x20, 0x21, 0x85, 0x86, 0xa0, 0xa1, 0x1680, 0x1681, 0x2000, 0x200b,
    0x2028, 0x202a, 0x202f, 0x2030, 0x205f, 0x2060, 0x3000, 0x3001]⟩

/-- Whether a character is white space in the sense of Unicode. -/
def isBlank (c : Char) : Bool := CodePoints.blank.contains c

end QueryParity
