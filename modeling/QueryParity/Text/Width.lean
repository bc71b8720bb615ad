import QueryParity.Text.Ligature

/-!
# Display width

The number of terminal cells taken by a text of visible characters. Three rules depend on one
character: East Asian wide characters and emoji take two cells, one sign takes three, and fillers,
the joining parts of Hangul syllables and the signs that are drawn over the next letter take none.
Every other character takes one. Ligatures take fewer cells than their characters would alone.
-/

namespace QueryParity

/-- Code points shown in two cells. -/
def CodePoints.wide : CodePoints := ⟨[
    0x1100, 0x1160, 0x17a4, 0x17a5, 0x231a, 0x231c, 0x2329, 0x232b, 0x23e9, 0x23ed, 0x23f0, 0x23f1,
    0x23f3, 0x23f4, 0x25fd, 0x25ff, 0x2614, 0x2616, 0x2630, 0x2638, 0x2648, 0x2654, 0x267f, 0x2680,
    0x268a, 0x2690, 0x2693, 0x2694, 0x26a1, 0x26a2, 0x26aa, 0x26ac, 0x26bd, 0x26bf, 0x26c4, 0x26c6,
    0x26ce, 0x26cf, 0x26d4, 0x26d5, 0x26ea, 0x26eb, 0x26f2, 0x26f4, 0x26f5, 0x26f6, 0x26fa, 0x26fb,
    0x26fd, 0x26fe, 0x2705, 0x2706, 0x270a, 0x270c, 0x2728, 0x2729, 0x274c, 0x274d, 0x274e, 0x274f,
    0x2753, 0x2756, 0x2757, 0x2758, 0x2795, 0x2798, 0x27b0, 0x27b1, 0x27bf, 0x27c0, 0x2b1b, 0x2b1d,
    0x2b50, 0x2b51, 0x2b55, 0x2b56, 0x2e80, 0x303f, 0x3041, 0x3248, 0x3250, 0xa4d0, 0xa960, 0xa983,
    0xac00, 0xd7b0, 0xf900, 0xfb00, 0xfe10, 0xfe70, 0xff01, 0xff61, 0xffe0, 0xffe8, 0x16fe0,
    0x1bc00, 0x1d300, 0x1d377, 0x1f004, 0x1f005, 0x1f0cf, 0x1f0d1, 0x1f18e, 0x1f18f, 0x1f191,
    0x1f19b, 0x1f200, 0x1f321, 0x1f32d, 0x1f336, 0x1f337, 0x1f37d, 0x1f37e, 0x1f394, 0x1f3a0,
    0x1f3cb, 0x1f3cf, 0x1f3d4, 0x1f3e0, 0x1f3f1, 0x1f3f4, 0x1f3f5, 0x1f3f8, 0x1f43f, 0x1f440,
    0x1f441, 0x1f442, 0x1f4fd, 0x1f4ff, 0x1f53e, 0x1f54b, 0x1f54f, 0x1f550, 0x1f568, 0x1f57a,
    0x1f57b, 0x1f595, 0x1f597, 0x1f5a4, 0x1f5a5, 0x1f5fb, 0x1f650, 0x1f680, 0x1f6c6, 0x1f6cc,
    0x1f6cd, 0x1f6d0, 0x1f6d3, 0x1f6d5, 0x1f6e0, 0x1f6eb, 0x1f6f0, 0x1f6f4, 0x1f700, 0x1f7e0,
    0x1f800, 0x1f90c, 0x1f93b, 0x1f93c, 0x1f946, 0x1f947, 0x1fa00, 0x1fa70, 0x1fb00, 0x20000,
    0x40000]⟩

/-- Code points shown in no cell of their own. -/
def CodePoints.widthless : CodePoints := ⟨[
    0xd4e, 0xd4f, 0x1160, 0x1200, 0x3164, 0x3165, 0xa8fa, 0xa8fb, 0xd7b0, 0xd7c7, 0xd7cb, 0xd7fc,
    0xffa0, 0xffa1, 0x111c2, 0x111c4, 0x113d1, 0x113d2, 0x1193f, 0x11940, 0x11941, 0x11942, 0x11a84,
    0x11a8a, 0x11d46, 0x11d47, 0x11f02, 0x11f03]⟩

/-- Cells taken by one character alone. -/
def cellsOf (c : Char) : Nat :=
  if c.toNat < 0x80 then 1
  else if CodePoints.widthless.contains c then 0
  else if CodePoints.wide.contains c then 2
  else if c = '\u17d8' then 3
  else 1

/-- The cells and the opening of a text with one more character in front. -/
def measureCons (c : Char) (rest : Nat × Opening) : Nat × Opening :=
  match rest.2.join? c with
  | some (cells, opening) => (cells + rest.1, opening)
  | none => (cellsOf c + rest.1, Opening.ofChar c)

/-- Cells taken by a text. -/
def displayWidth (s : String) : Nat := (s.toList.foldr measureCons (0, .plain)).1

end QueryParity
