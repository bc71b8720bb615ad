import QueryParity.Random.Source

/-!
# Repeated words

A source that hands out a fixed list of words of 64 bits over and over; a word of 32 bits is the low
half of the next one. It serves to steer draws by hand.
-/

namespace QueryParity

/-- A list of words that is repeated. -/
structure WordCycle where
  /-- The whole list. -/
  words : List UInt64
  /-- The words left before the list starts again. -/
  left : List UInt64
  deriving DecidableEq, Repr

namespace WordCycle

/-- A cycle at its start. -/
def ofList (words : List UInt64) : WordCycle := ⟨words, words⟩

/-- The next word; a cycle without words yields zero. -/
def next64 (c : WordCycle) : UInt64 × WordCycle :=
  match c.left with
  | w :: ws => (w, { c with left := ws })
  | [] =>
    match c.words with
    | w :: ws => (w, { c with left := ws })
    | [] => (0, c)

/-- The low half of the next word. -/
def next32 (c : WordCycle) : UInt32 × WordCycle :=
  let (w, c) := c.next64
  (w.toUInt32, c)

instance : RandomSource WordCycle := ⟨next32, next64⟩

end WordCycle

end QueryParity
