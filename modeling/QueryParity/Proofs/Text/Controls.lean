import QueryParity.Value

/-!
# Texts without control characters

Numbers, dates and quoted texts are written without control characters, so they neither break a line
nor begin an escape sequence, whatever the text between the quotes is.
-/

namespace QueryParity

/-- A text without control characters: no character comes before the space. -/
def NoControls (s : String) : Prop := ∀ c ∈ s.toList, 0x20 ≤ c.toNat

instance (s : String) : Decidable (NoControls s) := List.decidableBAll _ _

namespace NoControls

variable {s t : String}

/-- A character before the space is not in the text. -/
theorem notMem (h : NoControls s) {c : Char} (hc : c.toNat < 0x20) : c ∉ s.toList :=
  fun hmem => absurd (h c hmem) (Nat.not_le.mpr hc)

/-- Texts one after the other have no controls if both have none. -/
theorem append (hs : NoControls s) (ht : NoControls t) : NoControls (s ++ t) := by
  rw [NoControls, String.toList_append, List.forall_mem_append]
  exact ⟨hs, ht⟩

/-- No digit is a control, in any base. -/
theorem space_le_of_mem_toDigits {base : Nat} (hbase : 1 < base) (n : Nat) :
    ∀ c ∈ Nat.toDigits base n, 0x20 ≤ c.toNat := by
  have hdigit (d : Nat) : 0x20 ≤ (Nat.digitChar d).toNat := by
    have hsmall : ∀ d < 16, 0x20 ≤ (Nat.digitChar d).toNat := by decide
    obtain hlt | hge := Nat.lt_or_ge d 16
    · exact hsmall d hlt
    · rw [Nat.digitChar_eq_star.mpr hge]
      decide
  induction n using Nat.strongRecOn with
  | ind n ih =>
    rw [Nat.toDigits_eq_if hbase]
    split
    case isTrue => exact List.forall_mem_singleton.mpr (hdigit n)
    case isFalse hn =>
      have hpos : 0 < n := by omega
      rw [List.forall_mem_append]
      exact ⟨ih (n / base) (Nat.div_lt_self hpos hbase), List.forall_mem_singleton.mpr (hdigit _)⟩

/-- A number has no controls. -/
theorem nat (n : Nat) : NoControls (toString n) := by
  intro c hc
  rw [Nat.toString_eq_repr, Nat.toList_repr] at hc
  exact space_le_of_mem_toDigits (by decide) n c hc

/-- An integer has no controls, also with a sign. -/
theorem int (n : Int) : NoControls (toString n) := by
  cases n with
  | ofNat n => exact nat n
  | negSucc n => exact (by decide : NoControls "-").append (nat (n + 1))

/-- Nor has a number that is filled up with zeros. -/
theorem paddedDigits (width n : Nat) : NoControls (QueryParity.paddedDigits width n) := by
  refine append (fun c hc => ?_) (nat n)
  rw [String.toList_ofList] at hc
  rw [List.eq_of_mem_replicate hc]
  decide

/-- A year has no controls, also with a sign. -/
theorem yearText (year : Int) : NoControls (QueryParity.yearText year) := by
  unfold QueryParity.yearText
  split
  · exact paddedDigits 4 _
  · refine append ?_ (paddedDigits 4 _)
    split <;> decide

/-- A date has no controls. -/
theorem calendarText (t : Instant) : NoControls t.calendarText := by
  have hday := yearText (CivilDate.ofDays (t.seconds / Instant.secondsPerDay)).year
  have hdash : NoControls "-" := by decide
  have hcolon : NoControls ":" := by decide
  exact (((((((((((hday.append hdash).append (paddedDigits 2 _)).append hdash).append
    (paddedDigits 2 _)).append (by decide)).append (paddedDigits 2 _)).append hcolon).append
    (paddedDigits 2 _)).append hcolon).append (paddedDigits 2 _)).append (by decide))

/-- A character is written between quotes without controls. -/
theorem space_le_of_mem_escape (c : Char) : ∀ d ∈ Quoted.escape c, 0x20 ≤ d.toNat := by
  unfold Quoted.escape
  split
  iterate 6 simp
  split
  case isTrue hvisible =>
    refine List.forall_mem_singleton.mpr (Nat.not_lt.mp fun hlt => ?_)
    rw [isVisible_eq_false_of_lt hlt] at hvisible
    cases hvisible
  case isFalse =>
    rw [List.forall_mem_append, List.forall_mem_append]
    exact ⟨⟨by simp, space_le_of_mem_toDigits (by decide) _⟩, by simp⟩

/-- A quoted text has no controls, whatever characters it quotes. -/
theorem quoted (s : String) : NoControls (QueryParity.quoted s) := by
  rw [NoControls, QueryParity.quoted, String.toList_ofList, Quoted.encode, List.forall_mem_cons,
    List.forall_mem_append]
  refine ⟨by decide, fun c hc => ?_, by simp⟩
  obtain ⟨d, -, hmem⟩ := List.mem_flatMap.mp hc
  exact space_le_of_mem_escape d c hmem

/-- A value is written without controls. -/
theorem display (v : Value) : NoControls v.display := by
  cases v with
  | null type => exact (by decide : NoControls "null")
  | int n => exact int n.toInt
  | bool b => cases b <;> decide
  | string s => exact quoted s
  | dateTime t => exact append (append (by decide) (calendarText t)) (by decide)

end NoControls

end QueryParity
