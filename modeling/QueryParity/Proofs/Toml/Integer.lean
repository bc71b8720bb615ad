import Mathlib.Algebra.Ring.Nat
import QueryParity.Toml.Integer

/-!
# Reading written integers

The digits of a number in any base up to sixteen are read as the number. In decimal they hold no
underscore, begin with a zero only if there is no other digit, and are no prefix of another base,
so a decimal integer with or without a sign is read as the integer.
-/

namespace QueryParity.Toml

/-- A digit has its value in every base that has the digit. -/
theorem digitValue?_digitChar :
    ∀ base ≤ 16, ∀ d < base, digitValue? base (Nat.digitChar d) = some d := by decide

/-- Digits are read one part after the other. -/
theorem digitsValue?_append (base begun : Nat) (front back : List Char) :
    digitsValue? base begun (front ++ back) =
      (digitsValue? base begun front).bind (digitsValue? base · back) :=
  List.foldlM_append

/-- The digits of a number are read as the number. -/
theorem digitsValue?_toDigits {base : Nat} (hone : 1 < base) (hbase : base ≤ 16) (n : Nat) :
    digitsValue? base 0 (Nat.toDigits base n) = some n := by
  induction n using Nat.strongRecOn with
  | ind n ih =>
    rw [Nat.toDigits_eq_if hone]
    split
    case isTrue hn => simp [digitsValue?, digitValue?_digitChar base hbase n hn]
    case isFalse hn =>
      have hinit := ih (n / base) (Nat.div_lt_self (by omega) hone)
      have hlast := digitValue?_digitChar base hbase (n % base) (Nat.mod_lt n (by omega))
      rw [digitsValue?_append, hinit]
      simp [digitsValue?, hlast, Nat.div_add_mod']

/-- A number below a power of the base is read from the digits behind the first one of its sum with
the power, which are as many as the exponent says. -/
theorem toDigits_pow_add {base : Nat} (hone : 1 < base) (hbase : base ≤ 16) {k n : Nat}
    (hn : n < base ^ k) :
    ∃ digits, Nat.toDigits base (base ^ k + n) = '1' :: digits ∧ digits.length = k ∧
      digitsValue? base 0 digits = some n := by
  induction k generalizing n with
  | zero =>
    obtain rfl : n = 0 := by simpa using hn
    exact ⟨[], by rw [Nat.toDigits_eq_if hone]; simp [hone], rfl, rfl⟩
  | succ k ih =>
    rw [Nat.pow_succ'] at hn
    obtain ⟨digits, hdigits, hlength, hvalue⟩ := ih (Nat.div_lt_of_lt_mul hn)
    have hlarge : ¬base ^ (k + 1) + n < base := by
      have : base ≤ base ^ (k + 1) := Nat.le_self_pow (Nat.succ_ne_zero k) base
      omega
    have hdiv : (base ^ (k + 1) + n) / base = base ^ k + n / base := by
      rw [Nat.pow_succ, Nat.mul_comm, Nat.mul_add_div (by omega)]
    have hmod : (base ^ (k + 1) + n) % base = n % base := by
      rw [Nat.pow_succ, Nat.mul_comm, Nat.mul_add_mod]
    have hlast := digitValue?_digitChar base hbase (n % base) (Nat.mod_lt n (by omega))
    refine ⟨digits ++ [Nat.digitChar (n % base)], ?_, by simp [hlength], ?_⟩
    · rw [Nat.toDigits_eq_if hone, if_neg hlarge, hdiv, hmod, hdigits, List.cons_append]
    · rw [digitsValue?_append, hvalue]
      simp [digitsValue?, hlast, Nat.div_add_mod']

/-- The digits of a positive number do not begin with a zero. -/
theorem head?_toDigits_ne_zero {base : Nat} (hone : 1 < base) (hbase : base ≤ 16) {n : Nat}
    (hpos : 0 < n) : (Nat.toDigits base n).head? ≠ some '0' := by
  have hdigit : ∀ d < 16, Nat.digitChar d = '0' → d = 0 := by decide
  induction n using Nat.strongRecOn with
  | ind n ih =>
    rw [Nat.toDigits_eq_if hone]
    split
    case isTrue hn =>
      intro hzero
      have := hdigit n (by omega) (by simpa using hzero)
      omega
    case isFalse hn =>
      obtain ⟨c, cs, hinit⟩ := List.exists_cons_of_ne_nil
        (Nat.toDigits_ne_nil (b := base) (n := n / base))
      have hhead := ih (n / base) (Nat.div_lt_self hpos hone) (Nat.div_pos (by omega) (by omega))
      rw [hinit] at hhead ⊢
      exact hhead

/-- Characters without an underscore are grouped well. -/
theorem isGrouped_of_not_mem {afterDigit : Bool} {cs : List Char} (hcs : '_' ∉ cs)
    (hdigit : afterDigit ∨ cs ≠ []) : isGrouped afterDigit cs := by
  induction cs generalizing afterDigit with
  | nil => simpa [isGrouped] using hdigit
  | cons c cs ih =>
    simp only [List.mem_cons, not_or] at hcs
    rw [isGrouped, if_neg (Ne.symm hcs.1)]
    exact ih hcs.2 (Or.inl rfl)

/-- Digits without underscores are read as they stand. -/
theorem groupedValue?_of_not_mem (base : Nat) {cs : List Char} (hcs : '_' ∉ cs)
    (hne : cs ≠ []) : groupedValue? base cs = digitsValue? base 0 cs := by
  have hfilter : cs.filter (· ≠ '_') = cs :=
    List.filter_eq_self.mpr fun c hc => decide_eq_true (ne_of_mem_of_not_mem hc hcs)
  rw [groupedValue?, if_pos (isGrouped_of_not_mem hcs (Or.inr hne)), hfilter]

/-- The decimal digits of a number are read as the number. -/
theorem decimalValue?_toDigits (n : Nat) : decimalValue? (Nat.toDigits 10 n) = some n := by
  have hhead : Nat.toDigits 10 n = ['0'] ∨ (Nat.toDigits 10 n).head? ≠ some '0' := by
    rcases Nat.eq_zero_or_pos n with rfl | hpos
    · exact Or.inl (by decide)
    · exact Or.inr (head?_toDigits_ne_zero (by decide) (by decide) hpos)
  rw [decimalValue?, if_pos hhead,
    groupedValue?_of_not_mem 10 Nat.underscore_not_in_toDigits Nat.toDigits_ne_nil,
    digitsValue?_toDigits (by decide) (by decide)]

/-- A word of decimal digits is read in decimal. -/
theorem integerValue?_of_isDigit {cs : List Char} (hcs : ∀ c ∈ cs, c.isDigit) :
    integerValue? cs = (decimalValue? cs).map Int.ofNat := by
  unfold integerValue?
  split
  case h_6 => rfl
  all_goals simp at hcs

/-- A number is written in its decimal digits. -/
theorem toList_toString_natCast (n : Nat) : (toString (n : Int)).toList = Nat.toDigits 10 n := by
  change (Nat.repr n).toList = _
  simp

/-- A negative integer is written with a sign before its decimal digits. -/
theorem toList_toString_negSucc (n : Nat) :
    (toString (Int.negSucc n)).toList = '-' :: Nat.toDigits 10 (n + 1) := by
  change ("-" ++ Nat.repr (n + 1)).toList = _
  simp

/-- A written integer is read as the integer. -/
theorem integerValue?_toString (n : Int) : integerValue? (toString n).toList = some n := by
  cases n with
  | ofNat n =>
    have hdigits : ∀ c ∈ Nat.toDigits 10 n, c.isDigit :=
      fun c hc => Nat.isDigit_of_mem_toDigits (by decide) (by decide) hc
    rw [Int.ofNat_eq_natCast, toList_toString_natCast, integerValue?_of_isDigit hdigits,
      decimalValue?_toDigits]
    rfl
  | negSucc n =>
    rw [toList_toString_negSucc, integerValue?, decimalValue?_toDigits]
    rfl

end QueryParity.Toml
