import QueryParity.Random.Source

/-!
# ChaCha with eight rounds

The stream cipher ChaCha as a source of random words: a key of eight words, a block counter that
starts at zero, and eight rounds per block of sixteen words. A seed of 64 bits is stretched to a key
by a linear congruential generator with permuted output. The words of a block are handed out one by
one; a word of 64 bits takes two of them, the low half first.
-/

namespace QueryParity.ChaCha

/-- A row of the state: four words. -/
structure Lanes where
  w0 : UInt32
  w1 : UInt32
  w2 : UInt32
  w3 : UInt32
  deriving DecidableEq, Repr

namespace Lanes

/-- Apply an operation word by word. -/
def map (f : UInt32 → UInt32) (a : Lanes) : Lanes := ⟨f a.w0, f a.w1, f a.w2, f a.w3⟩

/-- Combine two rows word by word. -/
def zip (f : UInt32 → UInt32 → UInt32) (a b : Lanes) : Lanes :=
  ⟨f a.w0 b.w0, f a.w1 b.w1, f a.w2 b.w2, f a.w3 b.w3⟩

/-- Move every word one place to the left, the first one to the end. -/
def rotate (a : Lanes) : Lanes := ⟨a.w1, a.w2, a.w3, a.w0⟩

/-- The words in order. -/
def toList (a : Lanes) : List UInt32 := [a.w0, a.w1, a.w2, a.w3]

end Lanes

/-- The state of a block: four rows. -/
structure Block where
  a : Lanes
  b : Lanes
  c : Lanes
  d : Lanes
  deriving DecidableEq, Repr

/-- Rotate a word to the left. -/
def rotateLeft (amount : UInt32) (x : UInt32) : UInt32 :=
  (x <<< amount) ||| (x >>> (32 - amount))

namespace Block

/-- Four quarter rounds side by side, one per column. -/
def columnRound (s : Block) : Block :=
  let a := s.a.zip (· + ·) s.b
  let d := (s.d.zip (· ^^^ ·) a).map (rotateLeft 16)
  let c := s.c.zip (· + ·) d
  let b := (s.b.zip (· ^^^ ·) c).map (rotateLeft 12)
  let a := a.zip (· + ·) b
  let d := (d.zip (· ^^^ ·) a).map (rotateLeft 8)
  let c := c.zip (· + ·) d
  let b := (b.zip (· ^^^ ·) c).map (rotateLeft 7)
  ⟨a, b, c, d⟩

/-- Line the diagonals up as columns. -/
def skew (s : Block) : Block := ⟨s.a, s.b.rotate, s.c.rotate.rotate, s.d.rotate.rotate.rotate⟩

/-- Line the columns up as diagonals again. -/
def unskew (s : Block) : Block := ⟨s.a, s.b.rotate.rotate.rotate, s.c.rotate.rotate, s.d.rotate⟩

/-- Lining up the diagonals is undone. -/
@[simp] theorem unskew_skew (s : Block) : s.skew.unskew = s := rfl

/-- A round over the columns and one over the diagonals. -/
def doubleRound (s : Block) : Block := s.columnRound.skew.columnRound.unskew

/-- The block after `n` double rounds. -/
def doubleRounds : Nat → Block → Block
  | 0, s => s
  | n + 1, s => doubleRounds n s.doubleRound

/-- Add two blocks word by word. -/
def add (s t : Block) : Block :=
  ⟨s.a.zip (· + ·) t.a, s.b.zip (· + ·) t.b, s.c.zip (· + ·) t.c, s.d.zip (· + ·) t.d⟩

/-- The words in order. -/
def toList (s : Block) : List UInt32 := s.a.toList ++ s.b.toList ++ s.c.toList ++ s.d.toList

end Block

/-- The constant first row of every block. -/
def constants : Lanes := ⟨0x61707865, 0x3320646e, 0x79622d32, 0x6b206574⟩

/-- A generator: its key, the number of the next block and the words not handed out yet. -/
structure Generator where
  /-- First half of the key. -/
  key0 : Lanes
  /-- Second half of the key. -/
  key1 : Lanes
  /-- Number of the next block. -/
  counter : UInt64
  /-- Words of the current block that are left. -/
  left : List UInt32
  deriving DecidableEq, Repr

namespace Generator

/-- The sixteen words of the next block. -/
def block (g : Generator) : List UInt32 :=
  let start : Block :=
    ⟨constants, g.key0, g.key1, ⟨g.counter.toUInt32, (g.counter >>> 32).toUInt32, 0, 0⟩⟩
  ((start.doubleRounds 4).add start).toList

/-- The next word. -/
def next32 (g : Generator) : UInt32 × Generator :=
  match g.left with
  | w :: ws => (w, { g with left := ws })
  | [] =>
    match g.block with
    | w :: ws => (w, { g with counter := g.counter + 1, left := ws })
    | [] => (0, g)

/-- The next two words as one, the low half first. -/
def next64 (g : Generator) : UInt64 × Generator :=
  let (low, g) := g.next32
  let (high, g) := g.next32
  (low.toUInt64 ||| (high.toUInt64 <<< 32), g)

instance : RandomSource Generator := ⟨next32, next64⟩

end Generator

/-- The state of the seed's generator after one step. -/
def seedStep (s : UInt64) : UInt64 := s * 6364136223846793005 + 11634580027462260723

/-- The word that a state of the seed's generator stands for. -/
def seedWord (s : UInt64) : UInt32 :=
  let x := (((s >>> 18) ^^^ s) >>> 27).toUInt32
  let amount := (s >>> 59).toUInt32
  (x >>> amount) ||| (x <<< (32 - amount))

/-- Four key words and the state after them. -/
def seedLanes (s : UInt64) : Lanes × UInt64 :=
  let s0 := seedStep s
  let s1 := seedStep s0
  let s2 := seedStep s1
  let s3 := seedStep s2
  (⟨seedWord s0, seedWord s1, seedWord s2, seedWord s3⟩, s3)

/-- The generator that a seed begins. -/
def ofSeed (seed : UInt64) : Generator :=
  let (key0, s) := seedLanes seed
  let (key1, _) := seedLanes s
  ⟨key0, key1, 0, []⟩

end QueryParity.ChaCha
