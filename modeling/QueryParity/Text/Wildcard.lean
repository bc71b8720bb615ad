/-!
# Wildcard patterns

In a pattern `%` stands for any run of characters, `_` for exactly one, and every other character
for itself. `Wildcard.Matches` states this as a relation. `Wildcard.search` decides it by matching
greedily: a `%` stands for nothing at first, and a mismatch lets the last `%` met stand for one
character more.
-/

namespace QueryParity.Wildcard

/-- `Matches pattern input`: the pattern describes the whole input. -/
inductive Matches : List Char → List Char → Prop where
  | nil : Matches [] []
  /-- `%` describes any run of characters. -/
  | run {pattern input : List Char} (skipped : List Char) :
      Matches pattern input → Matches ('%' :: pattern) (skipped ++ input)
  /-- `_` describes any one character. -/
  | any {pattern input : List Char} (c : Char) :
      Matches pattern input → Matches ('_' :: pattern) (c :: input)
  /-- Every other character describes itself. -/
  | same {pattern input : List Char} {c : Char} :
      c ≠ '%' → c ≠ '_' → Matches pattern input → Matches (c :: pattern) (c :: input)

/-- What is left of a pattern whose first character describes `c`. -/
def advance? (c : Char) : List Char → Option (List Char)
  | p :: ps => if p = '_' ∨ p = c then some ps else none
  | [] => none

/-- A character that is described uses up pattern. -/
theorem length_lt_of_advance? {c : Char} {pattern rest : List Char}
    (h : advance? c pattern = some rest) : rest.length < pattern.length := by
  cases pattern with
  | nil => cases h
  | cons p ps =>
    simp only [advance?, Option.ite_none_right_eq_some, Option.some.injEq] at h
    rw [← h.2]
    exact Nat.lt_succ_self _

/-- Where a search resumes after a mismatch. -/
structure Retry where
  /-- The pattern behind the last `%`. -/
  pattern : List Char
  /-- The input that this pattern was last tried on. -/
  tried : List Char

/-- How much input a search may still look at, now or when it resumes. -/
def reach (input : List Char) : Option Retry → Nat
  | some retry => max retry.tried.length input.length
  | none => input.length + 1

/-- Whether what is left of the pattern describes what is left of the input. After a mismatch the
search resumes with the pattern behind the last `%`, one character further into the input than it
was last tried on. -/
def search (pattern input : List Char) (retry : Option Retry) : Bool :=
  match input, pattern with
  | [], pattern => pattern.all (· == '%')
  | c :: cs, '%' :: ps => search ps (c :: cs) (some ⟨ps, c :: cs⟩)
  | c :: cs, pattern =>
    match _h : advance? c pattern with
    | some ps => search ps cs retry
    | none =>
      match retry with
      | some ⟨ps, _ :: rest⟩ => search ps rest (some ⟨ps, rest⟩)
      | _ => false
-- A resumption gives up input, and every other step uses up pattern.
termination_by (reach input retry, pattern.length)
decreasing_by
  · cases retry <;> simp only [reach, List.length_cons, Prod.lex_def] <;> omega
  · have hl := length_lt_of_advance? _h
    cases retry <;> simp only [reach, List.length_cons, Prod.lex_def] <;> omega
  · simp only [reach, List.length_cons, Prod.lex_def]
    omega

/-- Whether the pattern describes the whole input. -/
def isMatch (pattern input : List Char) : Bool := search pattern input none

end QueryParity.Wildcard

namespace QueryParity

/-- Whether `pattern` describes the whole of `input`. -/
def likeMatch (input pattern : String) : Bool := Wildcard.isMatch pattern.toList input.toList

end QueryParity
