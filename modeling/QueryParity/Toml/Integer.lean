/-!
# Written integers

Decimal integers with an optional sign and without leading zeros, and hexadecimal, octal and binary
ones without a sign. Single underscores may separate digits.
-/

namespace QueryParity.Toml

/-- The value of a digit in a base up to sixteen; letters may be small or capital. -/
def digitValue? (base : Nat) (c : Char) : Option Nat :=
  let value? :=
    if '0' ≤ c ∧ c ≤ '9' then some (c.toNat - '0'.toNat)
    else if 'a' ≤ c ∧ c ≤ 'f' then some (c.toNat - 'a'.toNat + 10)
    else if 'A' ≤ c ∧ c ≤ 'F' then some (c.toNat - 'A'.toNat + 10)
    else none
  value?.filter (· < base)

/-- The number written by digits, continuing one that was begun. -/
def digitsValue? (base : Nat) (begun : Nat) (digits : List Char) : Option Nat :=
  digits.foldlM (fun n c => (digitValue? base c).map (n * base + ·)) begun

/-- Whether every underscore stands between two other characters, given whether another character
comes before the first one. -/
def isGrouped : (afterDigit : Bool) → List Char → Bool
  | afterDigit, [] => afterDigit
  | afterDigit, c :: rest =>
    if c = '_' then afterDigit && isGrouped false rest else isGrouped true rest

/-- The number written by digits and underscores; there must be a digit. -/
def groupedValue? (base : Nat) (cs : List Char) : Option Nat :=
  if isGrouped false cs then digitsValue? base 0 (cs.filter (· ≠ '_')) else none

/-- The number written in decimal without a sign. -/
def decimalValue? (cs : List Char) : Option Nat :=
  if cs = ['0'] ∨ cs.head? ≠ some '0' then groupedValue? 10 cs else none

/-- The integer that a word writes. -/
def integerValue? : List Char → Option Int
  | '0' :: 'x' :: digits => (groupedValue? 16 digits).map Int.ofNat
  | '0' :: 'o' :: digits => (groupedValue? 8 digits).map Int.ofNat
  | '0' :: 'b' :: digits => (groupedValue? 2 digits).map Int.ofNat
  | '+' :: digits => (decimalValue? digits).map Int.ofNat
  | '-' :: digits => (decimalValue? digits).map fun n => -Int.ofNat n
  | digits => (decimalValue? digits).map Int.ofNat

end QueryParity.Toml
