import QueryParity.Semantics

/-!
# The greedy search decides the pattern relation

The search keeps only the last `%` to go back to. This is enough: what stands between that `%` and
the point reached has no other `%`, so it uses up exactly one character of the input each. An
earlier `%` could only move the last one further into the input, which the last one can do itself;
and when the input is used up, a resumption would have too few characters left.
-/

namespace QueryParity.Wildcard

/-- The empty pattern describes the empty input only. -/
theorem matches_nil_iff {input : List Char} : Matches [] input ↔ input = [] := by
  constructor
  · intro h
    cases h
    rfl
  · rintro rfl
    exact .nil

/-- A `%` describes any part at the beginning of the input. -/
theorem matches_run_iff {pattern input : List Char} :
    Matches ('%' :: pattern) input ↔ ∃ k, Matches pattern (input.drop k) := by
  constructor
  · intro h
    cases h with
    | run skipped h => exact ⟨skipped.length, by rwa [List.drop_left]⟩
    | same hp => exact absurd rfl hp
  · rintro ⟨k, h⟩
    have hrun := Matches.run (input.take k) h
    rwa [List.take_append_drop] at hrun

/-- Every other character of a pattern describes one character of the input. -/
theorem matches_cons_iff {p c : Char} {pattern input : List Char} (hp : p ≠ '%') :
    Matches (p :: pattern) (c :: input) ↔ (p = '_' ∨ p = c) ∧ Matches pattern input := by
  constructor
  · intro h
    generalize hi : c :: input = whole at h
    cases h with
    | run => exact absurd rfl hp
    | any _ h =>
      cases hi
      exact ⟨.inl rfl, h⟩
    | same _ _ h =>
      cases hi
      exact ⟨.inr rfl, h⟩
  · rintro ⟨hc, h⟩
    by_cases hu : p = '_'
    · exact hu ▸ .any c h
    · obtain rfl := hc.resolve_left hu
      exact .same hp hu h

/-- Nothing but `%` describes the empty input. -/
theorem matches_empty_iff {pattern : List Char} :
    Matches pattern [] ↔ ∀ p ∈ pattern, p = '%' := by
  induction pattern with
  | nil => simp [matches_nil_iff]
  | cons p pattern ih =>
    rw [List.forall_mem_cons, ← ih]
    constructor
    · intro h
      generalize hi : ([] : List Char) = input at h
      cases h with
      | run skipped h =>
        obtain ⟨rfl, rfl⟩ := List.append_eq_nil_iff.mp hi.symm
        exact ⟨rfl, h⟩
      | any => cases hi
      | same => cases hi
    · rintro ⟨rfl, h⟩
      exact .run [] h

/-- A part of a pattern without `%` uses up one character of the input for each of its own. -/
theorem matches_append {fixed pattern input : List Char} (hf : ∀ p ∈ fixed, p ≠ '%')
    (h : Matches (fixed ++ pattern) input) :
    fixed.length ≤ input.length ∧ Matches pattern (input.drop fixed.length) := by
  induction fixed generalizing input with
  | nil => exact ⟨Nat.zero_le _, h⟩
  | cons p fixed ih =>
    have hp := hf p List.mem_cons_self
    cases input with
    | nil => exact absurd (matches_empty_iff.mp h p (by simp)) hp
    | cons c input =>
      have hrest := ih (fun q hq => hf q (List.mem_cons_of_mem _ hq)) ((matches_cons_iff hp).mp h).2
      exact ⟨Nat.succ_le_succ hrest.1, hrest.2⟩

/-- The point that a search has reached lies behind the last `%`, and what stands between has no
`%` and describes as many characters as it has. -/
def Behind (pattern input : List Char) : Option Retry → Prop
  | none => True
  | some retry => ∃ fixed, (∀ p ∈ fixed, p ≠ '%') ∧ retry.pattern = fixed ++ pattern ∧
      fixed.length ≤ retry.tried.length ∧ input = retry.tried.drop fixed.length

/-- A search would succeed when it resumes, now or after further resumptions. -/
def Recovers : Option Retry → Prop
  | none => False
  | some retry =>
    ∃ k, 0 < k ∧ k ≤ retry.tried.length ∧ Matches retry.pattern (retry.tried.drop k)

/-- Behind a `%` nothing stands between. -/
theorem behind_star (pattern input : List Char) : Behind pattern input (some ⟨pattern, input⟩) :=
  ⟨[], by simp⟩

/-- A character that is described moves the point reached. -/
theorem Behind.advance {p c : Char} {pattern input : List Char} {retry : Option Retry}
    (hb : Behind (p :: pattern) (c :: input) retry) (hp : p ≠ '%') :
    Behind pattern input retry := by
  cases retry with
  | none => trivial
  | some retry =>
    obtain ⟨fixed, hf, hpattern, hlen, hinput⟩ := hb
    have hlt : fixed.length < retry.tried.length := by
      have := congrArg List.length hinput
      simp only [List.length_cons, List.length_drop] at this
      omega
    refine ⟨fixed ++ [p], ?_, ?_, ?_, ?_⟩
    · intro q hq
      rcases List.mem_append.mp hq with hq | hq
      · exact hf q hq
      · exact List.mem_singleton.mp hq ▸ hp
    · rw [hpattern, List.append_assoc, List.singleton_append]
    · rw [List.length_append, List.length_singleton]
      exact hlt
    · rw [List.length_append, List.length_singleton, ← List.drop_drop, ← hinput, List.drop_one,
        List.tail_cons]

/-- What a resumption would match, the point reached matches further on in its input. -/
theorem Behind.matches_drop {pattern input : List Char} {retry : Option Retry}
    (hb : Behind pattern input retry) (hr : Recovers retry) :
    ∃ k, 0 < k ∧ k ≤ input.length ∧ Matches pattern (input.drop k) := by
  cases retry with
  | none => exact hr.elim
  | some retry =>
    obtain ⟨fixed, hf, hpattern, -, rfl⟩ := hb
    obtain ⟨k, hk, hklen, hm⟩ := hr
    rw [hpattern] at hm
    obtain ⟨hlen, hrest⟩ := matches_append hf hm
    rw [List.length_drop] at hlen
    refine ⟨k, hk, ?_, ?_⟩
    · rw [List.length_drop]
      omega
    · rwa [List.drop_drop, Nat.add_comm, ← List.drop_drop]

/-- A resumption succeeds one character further on, or after further resumptions. -/
theorem recovers_cons_iff {pattern rest : List Char} {c : Char} :
    Recovers (some ⟨pattern, c :: rest⟩) ↔
      Matches pattern rest ∨ Recovers (some ⟨pattern, rest⟩) := by
  constructor
  · rintro ⟨k, hk, hlen, hm⟩
    obtain _ | _ | k := k
    · exact absurd hk (Nat.lt_irrefl 0)
    · exact .inl hm
    · exact .inr ⟨k + 1, Nat.succ_pos k, Nat.le_of_succ_le_succ hlen, hm⟩
  · rintro (hm | ⟨k, hk, hlen, hm⟩)
    · exact ⟨1, Nat.one_pos, by simp, hm⟩
    · exact ⟨k + 1, Nat.succ_pos k, Nat.succ_le_succ hlen, hm⟩

/-- A `%` in front of input that is not used up stands for nothing, or for one character or more. -/
theorem matches_run_cons_iff {pattern input : List Char} {c : Char} :
    Matches ('%' :: pattern) (c :: input) ↔
      Matches pattern (c :: input) ∨ Recovers (some ⟨pattern, c :: input⟩) := by
  rw [matches_run_iff]
  constructor
  · rintro ⟨k, hm⟩
    by_cases hk : k = 0
    · exact .inl (by rwa [hk] at hm)
    · refine .inr ⟨min k (c :: input).length, ?_, Nat.min_le_right _ _, ?_⟩
      · rw [List.length_cons]
        omega
      · rwa [← List.drop_eq_drop_min]
  · rintro (hm | ⟨k, -, -, hm⟩)
    · exact ⟨0, hm⟩
    · exact ⟨k, hm⟩

/-- A first character that is not `%` describes `c`, or the pattern describes nothing that begins
with `c`. -/
theorem matches_cons_of_advance? {c : Char} {pattern input : List Char}
    (hp : ∀ ps, pattern ≠ '%' :: ps) :
    Matches pattern (c :: input) ↔ ∃ ps, advance? c pattern = some ps ∧ Matches ps input := by
  cases pattern with
  | nil => simp [matches_nil_iff, advance?]
  | cons p ps =>
    have hne : p ≠ '%' := fun h => hp ps (h ▸ rfl)
    rw [matches_cons_iff hne, advance?]
    by_cases hc : p = '_' ∨ p = c <;> simp [hc]

/-- A search succeeds exactly if the pattern describes the input, or a resumption succeeds. -/
theorem search_iff {pattern input : List Char} {retry : Option Retry}
    (hb : Behind pattern input retry) :
    search pattern input retry = true ↔ Matches pattern input ∨ Recovers retry := by
  fun_induction search pattern input retry with
  | case1 retry pattern =>
    -- With no input left there is nothing to go back over.
    have hnone : ¬ Recovers retry := by
      intro hr
      obtain ⟨k, hk, hlen, -⟩ := hb.matches_drop hr
      exact absurd hlen (Nat.not_le_of_lt hk)
    simp [matches_empty_iff, hnone]
  | case2 retry c cs ps ih =>
    rw [ih (behind_star ps _), ← matches_run_cons_iff]
    refine ⟨.inl, fun h => h.elim id fun hr => ?_⟩
    obtain ⟨k, -, -, hm⟩ := hb.matches_drop hr
    obtain ⟨j, hm⟩ := matches_run_iff.mp hm
    exact matches_run_iff.mpr ⟨k + j, by rwa [List.drop_drop] at hm⟩
  | case3 retry c cs pattern hp ps hadv ih =>
    rw [matches_cons_of_advance? hp, hadv]
    cases pattern with
    | nil => cases hadv
    | cons p pattern =>
      have hne : p ≠ '%' := fun he => hp pattern (he ▸ rfl)
      obtain ⟨-, rfl⟩ : (p = '_' ∨ p = c) ∧ pattern = ps := by
        simpa only [advance?, Option.ite_none_right_eq_some, Option.some.injEq] using hadv
      rw [ih (hb.advance hne)]
      simp
  | case4 c cs pattern hp hadv ps d rest ih =>
    rw [ih (behind_star ps rest), matches_cons_of_advance? hp, hadv, recovers_cons_iff]
    simp
  | case5 retry c cs pattern hp hadv hretry =>
    have hnone : ¬ Recovers retry := by
      intro hr
      cases retry with
      | none => exact hr
      | some retry =>
        obtain ⟨ps, tried⟩ := retry
        obtain ⟨k, hk, hlen, -⟩ := hr
        cases tried with
        | nil => exact absurd hlen (Nat.not_le_of_lt hk)
        | cons d rest => exact hretry ps d rest rfl
    rw [matches_cons_of_advance? hp, hadv]
    simp [hnone]

/-- The search over the whole input decides whether the pattern describes it. -/
theorem isMatch_iff {pattern input : List Char} :
    isMatch pattern input = true ↔ Matches pattern input := by
  have hb : Behind pattern input none := trivial
  rw [isMatch, search_iff hb]
  simp [Recovers]

/-- No character of the text is a wildcard. -/
def Plain (text : List Char) : Prop := ∀ c ∈ text, c ≠ '%' ∧ c ≠ '_'

/-- Text without wildcards in front of a pattern describes itself. -/
theorem matches_plain_append_iff {text pattern input : List Char} (ht : Plain text) :
    Matches (text ++ pattern) input ↔ ∃ rest, input = text ++ rest ∧ Matches pattern rest := by
  induction text generalizing input with
  | nil => simp
  | cons t text ih =>
    have hplain := ht t List.mem_cons_self
    cases input with
    | nil =>
      rw [List.cons_append, matches_empty_iff]
      simp [hplain.1]
    | cons c input =>
      rw [List.cons_append, matches_cons_iff hplain.1,
        ih fun c hc => ht c (List.mem_cons_of_mem _ hc)]
      constructor
      · rintro ⟨hc, rest, rfl, hm⟩
        obtain rfl := hc.resolve_left hplain.2
        exact ⟨rest, rfl, hm⟩
      · rintro ⟨rest, he, hm⟩
        cases he
        exact ⟨.inr rfl, rest, rfl, hm⟩

/-- A pattern without wildcards describes itself only. -/
theorem matches_plain_iff {text input : List Char} (ht : Plain text) :
    Matches text input ↔ input = text := by
  have h := @matches_plain_append_iff text [] input ht
  rw [List.append_nil] at h
  simp [h, matches_nil_iff]

/-- Text with a `%` behind it describes everything that begins with the text. -/
theorem matches_start_iff {text input : List Char} (ht : Plain text) :
    Matches (text ++ ['%']) input ↔ text <+: input := by
  rw [matches_plain_append_iff ht]
  constructor
  · rintro ⟨rest, rfl, -⟩
    exact List.prefix_append text rest
  · rintro ⟨rest, rfl⟩
    exact ⟨rest, rfl, matches_run_iff.mpr ⟨rest.length, by simp [matches_nil_iff]⟩⟩

/-- Text with a `%` in front describes everything that ends with the text. -/
theorem matches_end_iff {text input : List Char} (ht : Plain text) :
    Matches ('%' :: text) input ↔ text <:+ input := by
  simp only [matches_run_iff, matches_plain_iff ht]
  constructor
  · rintro ⟨k, rfl⟩
    exact List.drop_suffix k input
  · rintro ⟨skipped, rfl⟩
    exact ⟨skipped.length, List.drop_left⟩

end QueryParity.Wildcard

namespace QueryParity

/-- The wildcard match of two strings is the relation on their characters. -/
theorem likeMatch_iff {input pattern : String} :
    likeMatch input pattern = true ↔ Wildcard.Matches pattern.toList input.toList :=
  Wildcard.isMatch_iff

end QueryParity
