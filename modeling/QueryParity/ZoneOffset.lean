import QueryParity.Text.Blank

/-!
# Zones

A zone is `UTC` in any case, or a fixed offset: a sign, two digits of hours, any run of colons and
blanks, and two digits of minutes below sixty. Anything may follow an offset. An offset must be
less than a day.
-/

namespace QueryParity.ZoneOffset

/-- The value of a decimal digit. -/
def digit? (c : Char) : Option Nat := if c.isDigit then some (c.toNat - '0'.toNat) else none

/-- A number of two digits at the start of a text, and what follows it. -/
def twoDigits? : List Char → Option (Nat × List Char)
  | a :: b :: rest => do
    let high ← digit? a
    let low ← digit? b
    some (10 * high + low, rest)
  | _ => none

/-- The sign at the start of a text, and what follows it; the minus sign of typography counts. -/
def sign? : List Char → Option (Int × List Char)
  | '+' :: rest => some (1, rest)
  | '-' :: rest => some (-1, rest)
  | '\u2212' :: rest => some (-1, rest)
  | _ => none

/-- The offset in seconds east of UTC written at the start of a text. -/
def ofOffset? (text : List Char) : Option Int := do
  let (sign, rest) ← sign? text
  let (hours, rest) ← twoDigits? rest
  let (minutes, _) ← twoDigits? (rest.dropWhile fun c => c == ':' || isBlank c)
  let seconds := hours * 3600 + minutes * 60
  if minutes < 60 ∧ seconds < 86400 then some (sign * seconds) else none

/-- The seconds east of UTC of a zone. -/
def ofText? (zone : String) : Option Int :=
  if zone.toList.map Char.toLower == ['u', 't', 'c'] then some 0 else ofOffset? zone.toList

/-- The exact name of UTC is a zone without offset. -/
@[simp] theorem ofText?_utc : ofText? "UTC" = some 0 := by decide

end QueryParity.ZoneOffset
