import Mathlib.Data.List.Basic
import QueryParity.Toml.Reader

/-!
# Pieces that are found

A reader finds a piece together with the text behind it. Pieces found in a part of a text are found
in the text, and items that are found between their commas make up the sequence up to the bracket.
-/

namespace QueryParity.Toml

variable {α β : Type}

/-- A piece of a text was found, and this is what stands behind it. -/
def Found {s : List Char} (found : Option (α × Rest s)) (a : α) (rest : List Char) : Prop :=
  ∃ h : rest.length < s.length, found = some (a, ⟨rest, h⟩)

/-- What is found in a part of a text is found in the text. -/
theorem Found.within {s t rest : List Char} {found : Option (α × Rest t)} {a : α}
    (hle : t.length ≤ s.length) (hfound : Found found a rest) :
    Found (within hle found) a rest := by
  obtain ⟨h, rfl⟩ := hfound
  exact ⟨Nat.lt_of_lt_of_le h hle, rfl⟩

/-- What is found after the first character is found in the text. -/
theorem Found.afterFirst {s rest : List Char} {found : Option (α × Rest s)} {a : α} (c : Char)
    (hfound : Found found a rest) :
    Found (Toml.afterFirst found : Option (α × Rest (c :: s))) a rest :=
  hfound.within _

/-- A piece may be turned into another where it is found. -/
theorem Found.map {s rest : List Char} {found : Option (α × Rest s)} {a : α} (f : α → β)
    (hfound : Found found a rest) :
    Found (found.map fun (a, rest) => (f a, rest)) (f a) rest := by
  obtain ⟨h, rfl⟩ := hfound
  exact ⟨h, rfl⟩

/-- Whether a character can begin a piece: it is neither skipped with the spaces and line ends, nor
does it open a comment. -/
def beginsPiece (c : Char) : Bool := !isSpace c && c != '\n' && c != '\r' && c != '#'

/-- Nothing is skipped before a character that begins a piece. -/
theorem Gap.skip_of_beginsPiece (gap : Gap) {c : Char} (hc : beginsPiece c) (rest : List Char) :
    gap.skip (c :: rest) = some (c :: rest) := by
  simp only [beginsPiece, Bool.and_eq_true, Bool.not_eq_true', bne_iff_ne, ne_eq] at hc
  obtain ⟨⟨⟨hspace, hbreak⟩, hreturn⟩, hcomment⟩ := hc
  cases gap with
  | spaces => simp [Gap.skip, skipSpaces, hspace]
  | lines =>
    rw [Gap.skip]
    unfold skipLines
    split <;> simp_all

/-- Spaces are skipped, whatever the gap. -/
theorem Gap.skip_space (gap : Gap) (rest : List Char) :
    gap.skip (' ' :: rest) = gap.skip rest := by
  cases gap with
  | spaces => rfl
  | lines => simp [Gap.skip, skipLines, isSpace]

/-- A piece is found behind a gap. -/
theorem Found.behind {gap : Gap} {piece : Reader α} {s t rest : List Char} {a : α}
    (hskip : gap.skip s = some t) (hfound : Found (piece t) a rest) :
    Found (behind gap piece s) a rest := by
  unfold Toml.behind
  split
  next t' hskip' =>
    obtain rfl : t' = t := by simpa [hskip] using hskip'.symm
    exact hfound.within _
  next hskip' => simp [hskip] at hskip'

section Sequences

variable {close : Char} {item : Reader α} {a : α} {s t rest : List Char}

/-- A sequence ends at its bracket. -/
theorem sequence_close (hskip : skipLines false s = some (close :: t)) :
    Found (sequence close item s) [] t := by
  unfold sequence
  split
  next h => simp [hskip] at h
  next h => simp [hskip] at h
  next c t' h =>
    obtain ⟨rfl, rfl⟩ : c = close ∧ t' = t := by simpa [hskip] using h.symm
    exact ⟨length_le_of_skipLines hskip, by simp⟩

/-- A sequence whose first item is found goes on as the character behind the item says. -/
theorem sequence_of_item {c d : Char} {u : List Char} (hskip : skipLines false s = some (c :: t))
    (hclose : c ≠ close) (hitem : Found (item (c :: t)) a rest)
    (hrest : skipLines false rest = some (d :: u)) :
    ∃ h : u.length < s.length, sequence close item s =
      if d = ',' then
        (within (Nat.le_of_lt h) (sequence close item u)).map fun (items, rest) =>
          (a :: items, rest)
      else if d = close then some ([a], ⟨u, h⟩)
      else none := by
  obtain ⟨hr, hitem⟩ := hitem
  have h : u.length < s.length := by
    have hs := length_le_of_skipLines hskip
    have hu := length_le_of_skipLines hrest
    simp only [List.length_cons] at hs hr hu
    omega
  refine ⟨h, ?_⟩
  rw [sequence]
  split
  next h => simp [hskip] at h
  next h => simp [hskip] at h
  next c' t' h =>
    obtain ⟨rfl, rfl⟩ : c' = c ∧ t' = t := by simpa [hskip] using h.symm
    simp only [hitem, if_neg hclose]
    split
    next h => simp [hrest] at h
    next h => simp [hrest] at h
    next d' u' h =>
      obtain ⟨rfl, rfl⟩ : d' = d ∧ u' = u := by simpa [hrest] using h.symm
      rfl

/-- Items that are found before commas and before the bracket make up the sequence. -/
theorem sequence_intercalate {written : α → List Char} (hclose : beginsPiece close)
    (hne : close ≠ ',') {as : List α}
    (hbegin : ∀ a ∈ as, ∃ c cs, written a = c :: cs ∧ beginsPiece c ∧ c ≠ close)
    (hitem : ∀ a ∈ as, ∀ d rest, d = ',' ∨ d = close →
      Found (item (written a ++ d :: rest)) a (d :: rest)) :
    ∀ s, skipLines false s =
        skipLines false (List.intercalate [',', ' '] (as.map written) ++ close :: rest) →
      Found (sequence close item s) as rest := by
  -- a space stands behind every comma, so the texts are the same only once it is skipped
  induction as with
  | nil =>
    intro s hs
    exact sequence_close (hs.trans (Gap.lines.skip_of_beginsPiece hclose rest))
  | cons a as ih =>
    intro s hs
    obtain ⟨c, cs, hwritten, hc, hcclose⟩ := hbegin a List.mem_cons_self
    have hfirst := hitem a List.mem_cons_self
    rw [hwritten] at hfirst
    cases as with
    | nil =>
      rw [List.map_singleton, List.intercalate_singleton, hwritten] at hs
      obtain ⟨h, hseq⟩ := sequence_of_item (hs.trans (Gap.lines.skip_of_beginsPiece hc _)) hcclose
        (hfirst close rest (.inr rfl)) (Gap.lines.skip_of_beginsPiece hclose rest)
      exact ⟨h, by rw [hseq, if_neg hne, if_pos rfl]⟩
    | cons b as =>
      rw [List.map_cons, List.map_cons, List.intercalate_cons_cons, ← List.map_cons,
        hwritten] at hs
      simp only [List.append_assoc, List.cons_append, List.nil_append] at hs
      obtain ⟨h, hseq⟩ := sequence_of_item (hs.trans (Gap.lines.skip_of_beginsPiece hc _)) hcclose
        (hfirst ',' _ (.inl rfl)) (Gap.lines.skip_of_beginsPiece (c := ',') (by decide) _)
      rw [hseq, if_pos rfl]
      have hmore := ih (fun b hb => hbegin b (List.mem_cons_of_mem a hb))
        (fun b hb => hitem b (List.mem_cons_of_mem a hb)) _ (Gap.lines.skip_space _)
      exact (hmore.within _).map (a :: ·)

end Sequences

end QueryParity.Toml
