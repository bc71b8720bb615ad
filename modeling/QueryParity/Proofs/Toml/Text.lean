import QueryParity.Proofs.Toml.Integer
import QueryParity.Proofs.Toml.Reader
import QueryParity.Toml.Printer

/-!
# Reading written strings

Every character is read back from its written form: quotes and backslashes behind a backslash,
controls by their code point in eight digits, and all others as they stand. So a written string ends
at its closing quote, and is read back unless another quote behind an empty string makes it look
like one on several lines.
-/

namespace QueryParity.Toml

/-- The code point of a character, written in eight digits, is read as the character. -/
theorem codePoint?_digits {c : Char} {digits : List Char} (hlength : digits.length = 8)
    (hvalue : digitsValue? 16 0 digits = some c.toNat) : codePoint? 8 digits = some c := by
  have hvalid : c.toNat.isValidChar := c.valid
  simp [codePoint?, hvalue, hlength, hvalid]

/-- The digits of a code point are read behind a capital letter. -/
theorem escapedChar_digits {c : Char} {digits : List Char} (hlength : digits.length = 8)
    (hvalue : digitsValue? 16 0 digits = some c.toNat) (rest : List Char) :
    Found (escapedChar ('U' :: (digits ++ rest))) c rest := by
  have hlong : Found (escapedChar ('U' :: (digits ++ rest))) c ((digits ++ rest).drop 8) := by
    refine ⟨by simp only [List.length_drop, List.length_append, List.length_cons]; omega, ?_⟩
    change (codePoint? 8 ((digits ++ rest).take 8)).map _ = _
    rw [List.take_left' hlength, codePoint?_digits hlength hvalue]
    rfl
  rwa [List.drop_left' hlength] at hlong

/-- A written character is read as the character. -/
theorem escapedPiece_writtenChar (c : Char) (rest : List Char) :
    Found (escapedPiece (writtenChar c ++ rest)) [c] rest := by
  fun_cases writtenChar c with
  | case1 hshort =>
    -- The character stands for itself behind the backslash.
    have hchar : Found (escapedChar (c :: rest)) c rest := by
      rcases hshort with rfl | rfl <;> exact ⟨Nat.lt_succ_self _, rfl⟩
    exact (hchar.afterFirst '\\').map fun c => [c]
  | case2 hlong hplain =>
    have hslash : ∀ more, c :: rest ≠ '\\' :: more := by simp [not_or.mp hlong]
    rw [List.singleton_append, escapedPiece.eq_2 _ fun more => hslash more]
    exact ⟨Nat.lt_succ_self _, if_pos hplain⟩
  | case3 =>
    have hbound : c.toNat < 16 ^ 8 := Nat.lt_of_lt_of_le c.val.toNat_lt (by decide)
    obtain ⟨digits, hdigits, hlength, hvalue⟩ :=
      @toDigits_pow_add 16 (by decide) (by decide) _ _ hbound
    have htail : (Nat.toDigits 16 (0x100000000 + c.toNat)).tail = digits := by
      simpa using congrArg List.tail hdigits
    rw [htail]
    exact ((escapedChar_digits hlength hvalue rest).afterFirst '\\').map fun c => [c]

/-- No written character begins with a quote. -/
theorem writtenChar_eq_cons (c : Char) : ∃ d ds, writtenChar c = d :: ds ∧ d ≠ '"' := by
  fun_cases writtenChar c with
  | case1 => exact ⟨'\\', [c], rfl, by decide⟩
  | case2 hlong => exact ⟨c, [], rfl, (not_or.mp hlong).1⟩
  | case3 => exact ⟨'\\', _, rfl, by decide⟩

/-- A piece that is found before the close is followed by the other pieces. -/
theorem Found.pieces {close piece : Reader (List Char)} {s rest last cs more : List Char}
    (hopen : close s = none) (hpiece : Found (piece s) cs rest)
    (hmore : Found (pieces close piece rest) more last) :
    Found (pieces close piece s) (cs ++ more) last := by
  obtain ⟨h, hpiece⟩ := hpiece
  rw [Toml.pieces, hopen, hpiece]
  exact (hmore.within _).map (cs ++ ·)

/-- Written characters are read up to the closing quote. -/
theorem pieces_writtenChar (s rest : List Char) :
    Found (pieces (closeOne '"') escapedPiece (s.flatMap writtenChar ++ '"' :: rest)) s rest := by
  induction s with
  | nil =>
    rw [List.flatMap_nil, List.nil_append, pieces]
    exact ⟨Nat.lt_succ_self _, rfl⟩
  | cons c s ih =>
    rw [List.flatMap_cons, List.append_assoc]
    obtain ⟨d, ds, hwritten, hd⟩ := writtenChar_eq_cons c
    have hopen : closeOne '"' (writtenChar c ++ (s.flatMap writtenChar ++ '"' :: rest)) = none := by
      rw [hwritten, List.cons_append]
      exact if_neg hd
    exact Found.pieces hopen (escapedPiece_writtenChar c _) ih

/-- A written string is read as a string on one line. -/
theorem lineString_writtenString (s : String) (rest : List Char) :
    Found (lineString (writtenString s ++ rest)) s.toList rest := by
  rw [writtenString, List.cons_append, List.append_assoc, List.singleton_append]
  exact (pieces_writtenChar s.toList rest).afterFirst '"'

/-- A written string is read as a string before everything but another quote. -/
theorem anyString_writtenString (s : String) {rest : List Char} (hrest : rest.head? ≠ some '"') :
    Found (anyString (writtenString s ++ rest)) s.toList rest := by
  -- the text does not begin like a string on several lines
  have hone : ∀ more, writtenString s ++ rest ≠ '"' :: '"' :: '"' :: more := by
    intro more hthree
    rw [writtenString] at hthree
    cases hs : s.toList with
    | nil => simp_all
    | cons c cs =>
      obtain ⟨d, ds, hwritten, hd⟩ := writtenChar_eq_cons c
      simp_all
  rw [anyString.eq_3 _ (fun more => hone more) (by simp [writtenString])]
  exact lineString_writtenString s rest

/-- There is no string where no quote stands. -/
theorem lineString_eq_none {c : Char} (hdouble : c ≠ '"') (hsingle : c ≠ '\x27')
    (rest : List Char) : lineString (c :: rest) = none :=
  lineString.eq_3 _ (by simp [hdouble]) (by simp [hsingle])

/-- There is no string of any form where no quote stands. -/
theorem anyString_eq_none {c : Char} (hdouble : c ≠ '"') (hsingle : c ≠ '\x27')
    (rest : List Char) : anyString (c :: rest) = none := by
  rw [anyString.eq_3 _ (by simp [hdouble]) (by simp [hsingle])]
  exact lineString_eq_none hdouble hsingle rest

end QueryParity.Toml
