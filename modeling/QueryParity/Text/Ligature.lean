import QueryParity.Text.CodePoints

/-!
# Ligatures

Some characters are drawn together with the text that follows them and then take fewer cells than
alone. Whether a character is drawn so depends on what the text begins with: a skin tone joins an
emoji of a person or a body part, an alef joins a lam, the second half of a Lisu tone joins the
first, and the vowel signs of Kirat Rai join into the signs that they are canonically equal to.
-/

namespace QueryParity

/-- Emoji that a skin tone modifies. -/
def CodePoints.toned : CodePoints := ⟨[
    0x261d, 0x261e, 0x26f9, 0x26fa, 0x270a, 0x270e, 0x1f385, 0x1f386, 0x1f3c2, 0x1f3c5, 0x1f3c7,
    0x1f3c8, 0x1f3ca, 0x1f3cd, 0x1f442, 0x1f444, 0x1f446, 0x1f451, 0x1f466, 0x1f479, 0x1f47c,
    0x1f47d, 0x1f481, 0x1f484, 0x1f485, 0x1f488, 0x1f48f, 0x1f490, 0x1f491, 0x1f492, 0x1f4aa,
    0x1f4ab, 0x1f574, 0x1f576, 0x1f57a, 0x1f57b, 0x1f590, 0x1f591, 0x1f595, 0x1f597, 0x1f645,
    0x1f648, 0x1f64b, 0x1f650, 0x1f6a3, 0x1f6a4, 0x1f6b4, 0x1f6b7, 0x1f6c0, 0x1f6c1, 0x1f6cc,
    0x1f6cd, 0x1f90c, 0x1f90d, 0x1f90f, 0x1f910, 0x1f918, 0x1f920, 0x1f926, 0x1f927, 0x1f930,
    0x1f93a, 0x1f93c, 0x1f93f, 0x1f977, 0x1f978, 0x1f9b5, 0x1f9b7, 0x1f9b8, 0x1f9ba, 0x1f9bb,
    0x1f9bc, 0x1f9cd, 0x1f9d0, 0x1f9d1, 0x1f9de, 0x1fac3, 0x1fac6, 0x1faf0, 0x1faf9]⟩

/-- What a text begins with, as far as a character in front of it can join it. -/
inductive Opening where
  /-- Nothing that joins. -/
  | plain
  /-- A skin tone. -/
  | skinTone
  /-- An Arabic alef. -/
  | alef
  /-- A tone letter of Lisu that ends a tone. -/
  | toneEnd
  /-- The vowel sign E of Kirat Rai. -/
  | vowelE
  /-- The vowel sign AI of Kirat Rai, or two signs E that stand for it. -/
  | vowelAi
  deriving DecidableEq, Repr

namespace Opening

/-- Whether a character is a skin tone. -/
def isSkinTone (c : Char) : Bool := 0x1f3fb ≤ c.toNat && c.toNat ≤ 0x1f3ff

/-- Whether a character is a lam or one of its variants. -/
def isLam (c : Char) : Bool :=
  c ∈ ['\u0644', '\u06b5', '\u06b6', '\u06b7', '\u06b8', '\u076a', '\u08a6', '\u08c7']

/-- Whether a character is an alef or one of its variants. -/
def isAlef (c : Char) : Bool :=
  c ∈ ['\u0622', '\u0623', '\u0625', '\u0627', '\u0671', '\u0672', '\u0673', '\u0675',
    '\u0773', '\u0774'] || (0x870 ≤ c.toNat && c.toNat ≤ 0x882)

/-- Whether a character is a tone letter of Lisu that begins a tone of two letters. -/
def isToneStart (c : Char) : Bool := 0xa4f8 ≤ c.toNat && c.toNat ≤ 0xa4fb

/-- Whether a character is a tone letter of Lisu that ends a tone of two letters. -/
def isToneEnd (c : Char) : Bool := 0xa4fc ≤ c.toNat && c.toNat ≤ 0xa4fd

/-- The opening of a text that begins with a character that is not joined. -/
def ofChar (c : Char) : Opening :=
  if isSkinTone c then .skinTone
  else if isAlef c then .alef
  else if isToneEnd c then .toneEnd
  else if c.toNat = 0x16d67 then .vowelE
  else if c.toNat = 0x16d68 then .vowelAi
  else .plain

/-- The vowel sign of Kirat Rai in front of a sign E. Two signs E stand for AI, and the sign AI
gives away its second E. -/
def joinVowelE? (c : Char) : Option (Nat × Opening) :=
  match c.toNat with
  | 0x16d63 => some (0, .plain)
  | 0x16d67 => some (0, .vowelAi)
  | 0x16d68 => some (1, .vowelE)
  | 0x16d69 => some (0, .plain)
  | _ => none

/-- The cells that a character adds to a text that it joins, and the opening of both together. -/
def join? (opening : Opening) (c : Char) : Option (Nat × Opening) :=
  match opening with
  | .plain => none
  | .skinTone => if CodePoints.toned.contains c then some (0, .plain) else none
  | .alef => if isLam c then some (0, .plain) else none
  | .toneEnd => if isToneStart c then some (0, .plain) else none
  | .vowelE => joinVowelE? c
  | .vowelAi => if c.toNat = 0x16d63 then some (0, .plain) else none

end Opening

end QueryParity
