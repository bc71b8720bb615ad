import Mathlib.Data.List.Forall2
import QueryParity.Proofs.Text.Wildcard

/-!
# Patterns as pieces of the input

Read as a whole, a pattern describes an input that falls into pieces, one for each character of the
pattern, and each of them described by its character: any piece by `%`, a piece of one character by
`_`, and a piece of this one character by any other. The greedy search answers after a number of
steps that the lengths of pattern and input bound, although a resumption goes back in the input, and
its answer is whether there are such pieces.
-/

namespace QueryParity.Wildcard

/-- A character of a pattern describes a piece of the input. -/
inductive Describes : Char → List Char → Prop where
  /-- `%` describes any piece. -/
  | run (piece : List Char) : Describes '%' piece
  /-- `_` describes any one character. -/
  | any (c : Char) : Describes '_' [c]
  /-- Every other character describes itself. -/
  | same {c : Char} : c ≠ '%' → c ≠ '_' → Describes c [c]

/-- A pattern describes an input exactly if the input falls into pieces that its characters
describe. -/
theorem matches_iff_exists_pieces {pattern input : List Char} :
    Matches pattern input ↔
      ∃ pieces, List.Forall₂ Describes pattern pieces ∧ input = pieces.flatten := by
  constructor
  · intro h
    induction h with
    | nil => exact ⟨[], .nil, rfl⟩
    | run skipped _ ih =>
      obtain ⟨pieces, hpieces, hinput⟩ := ih
      exact ⟨skipped :: pieces, .cons (.run skipped) hpieces, congrArg (skipped ++ ·) hinput⟩
    | any c _ ih =>
      obtain ⟨pieces, hpieces, hinput⟩ := ih
      exact ⟨[c] :: pieces, .cons (.any c) hpieces, congrArg (c :: ·) hinput⟩
    | @same _ _ c hp hu _ ih =>
      obtain ⟨pieces, hpieces, hinput⟩ := ih
      exact ⟨[c] :: pieces, .cons (.same hp hu) hpieces, congrArg (c :: ·) hinput⟩
  · rintro ⟨pieces, hpieces, rfl⟩
    induction hpieces with
    | nil => exact .nil
    | cons hpiece _ ih =>
      cases hpiece with
      | run => exact .run _ ih
      | any c => exact .any c ih
      | same hp hu => exact .same hp hu ih

/-- `Answers pattern input retry steps answer`: from this point on, a search makes so many steps and
then gives the answer. -/
inductive Answers : List Char → List Char → Option Retry → Nat → Bool → Prop where
  /-- The input is used up. -/
  | used (pattern : List Char) (retry : Option Retry) :
      Answers pattern [] retry 0 (pattern.all (· == '%'))
  /-- A `%` stands for nothing at first. -/
  | run {c : Char} {cs ps : List Char} {retry : Option Retry} {steps : Nat} {answer : Bool} :
      Answers ps (c :: cs) (some ⟨ps, c :: cs⟩) steps answer →
      Answers ('%' :: ps) (c :: cs) retry (steps + 1) answer
  /-- The next character of the input is described. -/
  | advance {c : Char} {cs pattern ps : List Char} {retry : Option Retry} {steps : Nat}
      {answer : Bool} : (∀ rest, pattern ≠ '%' :: rest) → advance? c pattern = some ps →
      Answers ps cs retry steps answer → Answers pattern (c :: cs) retry (steps + 1) answer
  /-- After a mismatch the last `%` stands for one character more. -/
  | resume {c d : Char} {cs pattern ps rest : List Char} {steps : Nat} {answer : Bool} :
      (∀ rest, pattern ≠ '%' :: rest) → advance? c pattern = none →
      Answers ps rest (some ⟨ps, rest⟩) steps answer →
      Answers pattern (c :: cs) (some ⟨ps, d :: rest⟩) (steps + 1) answer
  /-- After a mismatch there is nothing to go back to. -/
  | stuck {c : Char} {cs pattern : List Char} {retry : Option Retry} :
      (∀ rest, pattern ≠ '%' :: rest) → advance? c pattern = none →
      (∀ ps d rest, retry ≠ some ⟨ps, d :: rest⟩) → Answers pattern (c :: cs) retry 0 false

/-- A step that uses up pattern and looks at no more of the input stays within the bound. -/
theorem succ_le_of_reach_le {reach reach' limit n n' steps : Nat} (hreach : reach' ≤ reach)
    (hn : n' < n) (hsteps : steps ≤ reach' * (limit + 1) + n') :
    steps + 1 ≤ reach * (limit + 1) + n := by
  have hmul := Nat.mul_le_mul_right (limit + 1) hreach
  omega

/-- A search answers. For each character of the input that it may look at, it makes at most one step
more than there are characters in the pattern. -/
theorem exists_answers (limit : Nat) (pattern input : List Char) (retry : Option Retry)
    (hpattern : pattern.length ≤ limit) (hretry : ∀ r, retry = some r → r.pattern.length ≤ limit) :
    ∃ steps ≤ reach input retry * (limit + 1) + pattern.length,
      Answers pattern input retry steps (search pattern input retry) := by
  fun_induction search pattern input retry with
  | case1 retry pattern => exact ⟨0, Nat.zero_le _, .used pattern retry⟩
  | case2 retry c cs ps ih =>
    have hps : ps.length ≤ limit := Nat.le_of_succ_le hpattern
    have hreach : reach (c :: cs) (some ⟨ps, c :: cs⟩) ≤ reach (c :: cs) retry := by
      cases retry <;> simp only [reach] <;> omega
    obtain ⟨steps, hsteps, hanswer⟩ := ih hps fun r hr => by cases hr; exact hps
    exact ⟨steps + 1, succ_le_of_reach_le hreach (Nat.lt_succ_self _) hsteps, .run hanswer⟩
  | case3 retry c cs pattern hp ps hadv ih =>
    have hshorter := length_lt_of_advance? hadv
    have hreach : reach cs retry ≤ reach (c :: cs) retry := by
      cases retry <;> simp only [reach, List.length_cons] <;> omega
    obtain ⟨steps, hsteps, hanswer⟩ := ih (by omega) hretry
    exact ⟨steps + 1, succ_le_of_reach_le hreach hshorter hsteps, .advance hp hadv hanswer⟩
  | case4 c cs pattern hp hadv ps d rest ih =>
    -- The pattern may be longer again, but there is a character less of the input to look at.
    have hps : ps.length ≤ limit := hretry _ rfl
    have hreach : reach rest (some ⟨ps, rest⟩) + 1 ≤ reach (c :: cs) (some ⟨ps, d :: rest⟩) := by
      simp only [reach, List.length_cons]
      omega
    obtain ⟨steps, hsteps, hanswer⟩ := ih hps fun r hr => by cases hr; exact hps
    refine ⟨steps + 1, ?_, .resume hp hadv hanswer⟩
    have hmul := Nat.mul_le_mul_right (limit + 1) hreach
    rw [Nat.add_mul] at hmul
    omega
  | case5 retry c cs pattern hp hadv hnone => exact ⟨0, Nat.zero_le _, .stuck hp hadv hnone⟩

/-- The greedy match of any input against any pattern comes to an end, in a number of steps that the
product of their lengths bounds. Its answer is yes exactly if the whole input falls into pieces, one
for each character of the pattern in order, that are any piece for a `%`, one character for a `_`,
and the character itself for any other. -/
theorem like_match_decides_pieces (input pattern : String) :
    (∃ steps < (input.length + 2) * (pattern.length + 1),
      Answers pattern.toList input.toList none steps (likeMatch input pattern)) ∧
    (likeMatch input pattern = true ↔
      ∃ pieces, List.Forall₂ Describes pattern.toList pieces ∧ input.toList = pieces.flatten) := by
  constructor
  · obtain ⟨steps, hsteps, hanswer⟩ := exists_answers pattern.length pattern.toList input.toList
      none (Nat.le_of_eq String.length_toList) nofun
    refine ⟨steps, ?_, hanswer⟩
    rw [reach, String.length_toList, String.length_toList] at hsteps
    rw [Nat.add_mul] at hsteps ⊢
    omega
  · rw [likeMatch_iff, matches_iff_exists_pieces]

end QueryParity.Wildcard
