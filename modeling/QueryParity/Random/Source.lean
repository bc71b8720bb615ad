/-!
# Random draws

A source of random words is any state that yields words of 32 and 64 bits. The draws below use a
source in a fixed way, so that a run can be repeated from the state it began with.
-/

namespace QueryParity

/-- A state that yields random words. -/
class RandomSource (σ : Type) where
  /-- The next word of 32 bits and the state after it. -/
  next32 : σ → UInt32 × σ
  /-- The next word of 64 bits and the state after it. -/
  next64 : σ → UInt64 × σ

namespace RandomSource

variable {σ : Type} [RandomSource σ]

/-- A number below `n` from words below `range`: the integer part of `word * n / range`, where the
fraction that is left over is refined by a second word if it is too close to one to decide. -/
def scaled (range : Nat) (next : σ → Nat × σ) (n : Nat) (rng : σ) : Nat × σ :=
  let (word, rng) := next rng
  let high := word * n / range
  let low := word * n % range
  if range - n < low then
    let (second, rng) := next rng
    (if range ≤ low + second * n / range then high + 1 else high, rng)
  else (high, rng)

/-- A number below `n`, drawn from words of 32 bits as long as `n` fits into one. -/
def below (n : Nat) (rng : σ) : Nat × σ :=
  if n < UInt32.size then
    scaled UInt32.size (fun rng => let (word, rng) := next32 rng; (word.toNat, rng)) n rng
  else scaled UInt64.size (fun rng => let (word, rng) := next64 rng; (word.toNat, rng)) n rng

/-- A member of a list; nothing is drawn from an empty list. -/
def choose {α : Type} (xs : List α) (rng : σ) : Option α × σ :=
  match xs with
  | [] => (none, rng)
  | x :: xs =>
    let (i, rng) := below (xs.length + 1) rng
    (some ((x :: xs)[i]?.getD x), rng)

/-- The fraction `1 / d`, rounded to 53 significant bits, in units of `2 ^ -64` and rounded down. -/
def reciprocal (d : Nat) : Nat :=
  let exponent := d.log2
  let significand := ((1 <<< (exponent + 54)) / d + 1) / 2
  (significand <<< 11) >>> exponent

/-- True once in `d` draws on average; nothing is drawn when `d` is one. -/
def oneIn (d : Nat) (rng : σ) : Bool × σ :=
  if d = 1 then (true, rng)
  else
    let (word, rng) := next64 rng
    (decide (word.toNat < reciprocal d), rng)

end RandomSource

end QueryParity
