import Mathlib.Algebra.Ring.Int.Defs
import QueryParity.Proofs.Outcome
import QueryParity.Semantics

/-!
# Integer arithmetic

Integer arithmetic is exact arithmetic whose result is reduced to 32 bits. A quotient is cut off
toward zero, a shift to the right rounds down, and a shift by any count, also by a negative one, is
a shift by the remainder of the count by 32. The one fault that integers can raise is a division by
zero, and a null operand comes before it.
-/

namespace QueryParity

open Outcome

namespace Value

variable {v : Value} {site : FaultSite}

/-- Only an integer has an integer content. -/
theorem eq_int_of_int? {n : Int32} (h : v.int? site = .ok (some n)) : v = .int n := by
  cases v with
  | int m =>
    cases h
    rfl
  | null type => cases type <;> cases h
  | _ => cases h

/-- A value without an integer content has another type. -/
theorem eq_typeMismatch_of_int? {fault : Fault} (h : v.int? site = .error fault) :
    fault = .typeMismatch site .int v.type := by
  cases v with
  | int m => cases h
  | null type =>
    cases type with
    | int => cases h
    | _ =>
      cases h
      rfl
  | _ =>
    cases h
    rfl

/-- A value without a truth value has another type. -/
theorem eq_typeMismatch_of_bool? {fault : Fault} (h : v.bool? site = .error fault) :
    fault = .typeMismatch site .bool v.type := by
  cases v with
  | bool b => cases h
  | null type =>
    cases type with
    | bool => cases h
    | _ =>
      cases h
      rfl
  | _ =>
    cases h
    rfl

end Value

namespace BinaryOp

/-- The operators of integer arithmetic. -/
def integerOps : List BinaryOp :=
  [.add, .subtract, .multiply, .divide, .modulo, .leftShift, .rightShift]

/-- The number of places of a shift: the remainder of its count by 32, which is never negative. -/
def places (count : Int) : Nat := (count % 32).toNat

/-- The exact result of integer arithmetic, before it is reduced; there is none for a division by
zero, and none for other operators. -/
def exactResult? (op : BinaryOp) (a b : Int) : Option Int :=
  match op with
  | .add => some (a + b)
  | .subtract => some (a - b)
  | .multiply => some (a * b)
  | .divide => if b = 0 then none else some (a.tdiv b)
  | .modulo => if b = 0 then none else some (a.tmod b)
  | .leftShift => some (a * 2 ^ places b)
  | .rightShift => some (a.fdiv (2 ^ places b))
  | _ => none

variable {op : BinaryOp} {l r : Value}

/-- A shift is by fewer than 32 places, and by as many as its count up to a multiple of 32. -/
theorem places_spec (count : Int) :
    places count < 32 ∧ (places count : Int) % 32 = count % 32 := by
  unfold places
  omega

/-- The count of a shift is reduced to its places. -/
theorem toNat_smod (b : Int32) : (b.toBitVec.smod 32).toNat = places b.toInt := by
  have hmod : (b.toBitVec.smod 32).toInt = b.toInt % 32 := by
    rw [BitVec.toInt_smod, Int32.toInt_toBitVec]
    exact Int.fmod_eq_emod_of_nonneg _ (by decide)
  have hmsb : (b.toBitVec.smod 32).msb = false := by
    rw [BitVec.msb_eq_toInt, hmod, decide_eq_false_iff_not]
    omega
  rw [places, ← hmod, BitVec.toInt_eq_toNat_of_msb hmsb, Int.toNat_natCast]

/-- A shift to the left is a product with a power of two. -/
theorem shiftLeft_eq_ofInt (a b : Int32) :
    a <<< b = Int32.ofInt (a.toInt * 2 ^ places b.toInt) := by
  have hpower : BitVec.ofInt 32 (2 ^ places b.toInt) = BitVec.twoPow 32 (places b.toInt) := by
    apply BitVec.eq_of_toNat_eq
    rw [BitVec.toNat_twoPow, BitVec.toNat_ofInt]
    norm_cast
  have hleft : BitVec.ofInt 32 a.toInt = a.toBitVec := BitVec.ofInt_toInt
  apply Int32.toBitVec_inj.mp
  rw [Int32.toBitVec_shiftLeft, BitVec.shiftLeft_eq', toNat_smod, BitVec.shiftLeft_eq_mul_twoPow,
    Int32.toBitVec_ofInt, BitVec.ofInt_mul, hpower, hleft]

/-- A shift to the right is the quotient by a power of two, rounded down. -/
theorem toInt_shiftRight (a b : Int32) : (a >>> b).toInt = a.toInt.fdiv (2 ^ places b.toInt) := by
  have hpower : (0 : Int) ≤ 2 ^ places b.toInt := Int.pow_nonneg (by decide)
  rw [← Int32.toInt_toBitVec, Int32.toBitVec_shiftRight, BitVec.sshiftRight_eq', toNat_smod,
    BitVec.toInt_sshiftRight, Int.shiftRight_eq_div_pow, Int.fdiv_eq_ediv_of_nonneg _ hpower]
  norm_cast

/-- An integer is zero exactly if its content is. -/
theorem toInt_eq_zero_iff {b : Int32} : b.toInt = 0 ↔ b = 0 := by
  rw [← Int32.toInt_inj, Int32.toInt_zero]

/-- A quotient is the exact one, reduced. -/
theorem div_eq_ofInt (a b : Int32) : a / b = Int32.ofInt (a.toInt.tdiv b.toInt) := by
  rw [← Int32.toInt_inj, Int32.toInt_div, Int32.toInt_ofInt]

/-- A remainder is the exact one. -/
theorem mod_eq_ofInt (a b : Int32) : a % b = Int32.ofInt (a.toInt.tmod b.toInt) := by
  rw [← Int32.toInt_mod, Int32.ofInt_toInt]

/-- A quotient need not be reduced, except that the least integer has no negation. -/
theorem toInt_div_cases (a b : Int32) :
    (a / b).toInt = a.toInt.tdiv b.toInt ∨
      a = Int32.minValue ∧ b = -1 ∧ a / b = Int32.minValue := by
  by_cases ha : a = Int32.minValue
  · by_cases hb : b = -1
    · subst ha hb
      exact .inr ⟨rfl, rfl, by decide⟩
    · exact .inl (Int32.toInt_div_of_ne_right a b hb)
  · exact .inl (Int32.toInt_div_of_ne_left a b ha)

/-- Quotient and remainder make up the dividend again, up to reduction. -/
theorem ofInt_div_mul_add_mod (a b : Int32) :
    Int32.ofInt ((a / b).toInt * b.toInt + (a % b).toInt) = a := by
  have hexact : a.toInt.tdiv b.toInt * b.toInt + a.toInt.tmod b.toInt = a.toInt :=
    Int.tdiv_mul_add_tmod _ _
  calc Int32.ofInt ((a / b).toInt * b.toInt + (a % b).toInt)
      = a / b * b + a % b := by
        rw [Int32.ofInt_add, Int32.ofInt_mul, Int32.ofInt_toInt, Int32.ofInt_toInt,
          Int32.ofInt_toInt]
    _ = Int32.ofInt (a.toInt.tdiv b.toInt * b.toInt + a.toInt.tmod b.toInt) := by
        rw [div_eq_ofInt, mod_eq_ofInt, Int32.ofInt_add, Int32.ofInt_mul, Int32.ofInt_toInt]
    _ = a := by rw [hexact, Int32.ofInt_toInt]

/-- A remainder is less than the divisor, and it is zero or has the sign of the dividend. -/
theorem toInt_mod_spec (a : Int32) {b : Int32} (hb : b ≠ 0) :
    (a % b).toInt.natAbs < b.toInt.natAbs ∧ (a % b = 0 ∨ (a % b).toInt.sign = a.toInt.sign) := by
  have hpos : 0 < b.toInt.natAbs := by
    rw [Int.natAbs_pos, ne_eq, toInt_eq_zero_iff]
    exact hb
  constructor
  · rw [Int32.toInt_mod, Int.natAbs_tmod]
    exact Nat.mod_lt _ hpos
  · rw [← toInt_eq_zero_iff, Int32.toInt_mod, Int.sign_tmod]
    split
    case isTrue hdvd => exact .inl (Int.tmod_eq_zero_of_dvd hdvd)
    case isFalse => exact .inr rfl

/-- A guarded operation is exact, reduced, if the operation is. -/
theorem arithmetic_guarded_int {a b : Int32} {f : Int32 → Int32 → Int32} {g : Int → Int → Int}
    (hf : f a b = Int32.ofInt (g a.toInt b.toInt)) :
    arithmetic (guarded f) (.int a) (.int b) =
      match (if b.toInt = 0 then none else some (g a.toInt b.toInt)) with
      | some x => .ok (.int (Int32.ofInt x))
      | none => .error .divideByZero := by
  change (guarded f a b).map Value.int = _
  by_cases hb : b = 0
  · rw [guarded, if_pos hb, if_pos (toInt_eq_zero_iff.mpr hb)]
    rfl
  · rw [guarded, if_neg hb, if_neg (mt toInt_eq_zero_iff.mp hb), hf]
    rfl

/-- An operator applied to integers gives its exact result, reduced; there is none for a division by
zero only. -/
theorem apply_int (h : op ∈ integerOps) (a b : Int32) :
    op.apply (.int a) (.int b) =
      match op.exactResult? a.toInt b.toInt with
      | some x => .ok (.int (Int32.ofInt x))
      | none => .error .divideByZero := by
  cases op with
  | add =>
    change Except.ok (Value.int (a + b)) = .ok (.int (Int32.ofInt (a.toInt + b.toInt)))
    rw [Int32.ofInt_add, Int32.ofInt_toInt, Int32.ofInt_toInt]
  | subtract =>
    change Except.ok (Value.int (a - b)) = .ok (.int (Int32.ofInt (a.toInt - b.toInt)))
    rw [Int32.ofInt_sub, Int32.ofInt_toInt, Int32.ofInt_toInt]
  | multiply =>
    change Except.ok (Value.int (a * b)) = .ok (.int (Int32.ofInt (a.toInt * b.toInt)))
    rw [Int32.ofInt_mul, Int32.ofInt_toInt, Int32.ofInt_toInt]
  | divide => exact arithmetic_guarded_int (div_eq_ofInt a b)
  | modulo => exact arithmetic_guarded_int (mod_eq_ofInt a b)
  | leftShift => exact congrArg (Except.ok ∘ Value.int) (shiftLeft_eq_ofInt a b)
  | rightShift =>
    change Except.ok (Value.int (a >>> b)) =
      .ok (.int (Int32.ofInt (a.toInt.fdiv (2 ^ places b.toInt))))
    rw [← toInt_shiftRight, Int32.ofInt_toInt]
  | _ => exact absurd h (by decide)

/-- Arithmetic passes a null operand on, before the operation is looked at. -/
theorem arithmetic_null {f : Int32 → Int32 → Except Fault Int32} (hl : l.type = .int)
    (hr : r.type = .int) (h : l = .null .int ∨ r = .null .int) :
    arithmetic f l r = .ok (.null .int) := by
  obtain rfl | rfl := h
  · cases r with
    | int n => rfl
    | null type =>
      obtain rfl : type = .int := hr
      rfl
    | _ => cases hr
  · cases l with
    | int n => rfl
    | null type =>
      obtain rfl : type = .int := hl
      rfl
    | _ => cases hl

/-- Arithmetic divides by zero exactly if both operands are integers and the operation does. -/
theorem arithmetic_eq_divideByZero_iff {f : Int32 → Int32 → Except Fault Int32} :
    arithmetic f l r = .error .divideByZero ↔
      ∃ a b, l = .int a ∧ r = .int b ∧ f a b = .error .divideByZero := by
  constructor
  · intro h
    obtain hl | ⟨x, hl, h⟩ := bind_eq_error_iff.mp h
    · cases Value.eq_typeMismatch_of_int? hl
    obtain hr | ⟨y, hr, h⟩ := bind_eq_error_iff.mp h
    · cases Value.eq_typeMismatch_of_int? hr
    obtain _ | a := x
    · cases h
    obtain _ | b := y
    · cases h
    refine ⟨a, b, Value.eq_int_of_int? hl, Value.eq_int_of_int? hr, ?_⟩
    change (f a b).map Value.int = _ at h
    cases hf : f a b with
    | ok n =>
      rw [hf] at h
      cases h
    | error fault =>
      rw [hf] at h
      cases h
      rfl
  · rintro ⟨a, b, rfl, rfl, hf⟩
    change (f a b).map Value.int = _
    rw [hf]
    rfl

/-- An operation that always has a result does not divide by zero. -/
theorem arithmetic_ne_divideByZero (f : Int32 → Int32 → Int32) (l r : Value) :
    arithmetic (fun a b => .ok (f a b)) l r ≠ .error .divideByZero := by
  intro h
  obtain ⟨a, b, -, -, hf⟩ := arithmetic_eq_divideByZero_iff.mp h
  cases hf

/-- A guarded operation divides by zero exactly if its operands are integers and the second one is
zero. -/
theorem arithmetic_guarded_eq_divideByZero_iff {f : Int32 → Int32 → Int32} :
    arithmetic (guarded f) l r = .error .divideByZero ↔ (∃ a, l = .int a) ∧ r = .int 0 := by
  have hguarded (a b : Int32) : guarded f a b = .error .divideByZero ↔ b = 0 := by
    rw [guarded]
    split <;> simp_all
  simp only [arithmetic_eq_divideByZero_iff, hguarded]
  constructor
  · rintro ⟨a, _, hl, hr, rfl⟩
    exact ⟨⟨a, hl⟩, hr⟩
  · rintro ⟨⟨a, hl⟩, hr⟩
    exact ⟨a, 0, hl, hr, rfl⟩

/-- A connective does not divide. -/
theorem connective_ne_divideByZero (site : FaultSite)
    (f : Option Bool → Option Bool → Option Bool) (l r : Value) :
    connective site f l r ≠ .error .divideByZero := by
  intro h
  obtain hl | ⟨x, -, h⟩ := bind_eq_error_iff.mp h
  · cases Value.eq_typeMismatch_of_bool? hl
  obtain hr | ⟨y, -, h⟩ := bind_eq_error_iff.mp h
  · cases Value.eq_typeMismatch_of_bool? hr
  · cases h

/-- Equality does not divide. -/
theorem equality_ne_divideByZero (f : Bool → Value) (l r : Value) :
    (equality l r).map f ≠ .error .divideByZero := by
  rw [equality]
  split <;> nofun

/-- A comparison does not divide. -/
theorem comparison_ne_divideByZero (test : Ordering → Bool) (l r : Value) :
    comparison test l r ≠ .error .divideByZero := by
  intro h
  obtain h | ⟨o, -, h⟩ := bind_eq_error_iff.mp h
  · unfold ordering at h
    split at h <;> cases h
  · cases h

/-- A division by zero is raised by a quotient or a remainder of two integers, and by nothing
else. -/
theorem apply_eq_divideByZero_iff :
    op.apply l r = .error .divideByZero ↔
      (op = .divide ∨ op = .modulo) ∧ (∃ a, l = .int a) ∧ r = .int 0 := by
  cases op with
  | divide =>
    exact arithmetic_guarded_eq_divideByZero_iff.trans (and_iff_right (.inl rfl)).symm
  | modulo =>
    exact arithmetic_guarded_eq_divideByZero_iff.trans (and_iff_right (.inr rfl)).symm
  | add | subtract | multiply | leftShift | rightShift =>
    exact iff_of_false (arithmetic_ne_divideByZero _ l r) (by simp)
  | and | andAlso | or | orElse =>
    exact iff_of_false (connective_ne_divideByZero _ _ l r) (by simp)
  | equal | notEqual => exact iff_of_false (equality_ne_divideByZero _ l r) (by simp)
  | lessThan | lessThanOrEqual | greaterThan | greaterThanOrEqual =>
    exact iff_of_false (comparison_ne_divideByZero _ l r) (by simp)

/-- An operator of integer arithmetic gives the exact result, reduced to 32 bits, and a division by
zero has none. A shift is by the remainder of its count by 32, and a shift to the right is not
reduced at all. A quotient is cut off toward zero, except that the least integer has no negation;
the remainder is less than the divisor, is zero or has the sign of the dividend, and makes up the
dividend with the product of quotient and divisor, reduced. Only quotients and remainders of
integers raise a division by zero, by zero and whatever the values are; a null operand is passed
on. -/
theorem integer_operators_reduce_exact_results (a b : Int32) :
    (∀ op ∈ integerOps, op.apply (.int a) (.int b) =
      match op.exactResult? a.toInt b.toInt with
      | some x => .ok (.int (Int32.ofInt x))
      | none => .error .divideByZero) ∧
    (places b.toInt < 32 ∧ (places b.toInt : Int) % 32 = b.toInt % 32) ∧
    (∃ n, apply .rightShift (.int a) (.int b) = .ok (.int n) ∧
      n.toInt = a.toInt.fdiv (2 ^ places b.toInt)) ∧
    (b ≠ 0 → ∃ q r, apply .divide (.int a) (.int b) = .ok (.int q) ∧
      apply .modulo (.int a) (.int b) = .ok (.int r) ∧
      (q.toInt = a.toInt.tdiv b.toInt ∨
        a = Int32.minValue ∧ b = -1 ∧ q = Int32.minValue) ∧
      r.toInt = a.toInt.tmod b.toInt ∧ r.toInt.natAbs < b.toInt.natAbs ∧
      (r = 0 ∨ r.toInt.sign = a.toInt.sign) ∧
      Int32.ofInt (q.toInt * b.toInt + r.toInt) = a) ∧
    (∀ op l r, apply op l r = .error .divideByZero ↔
      (op = .divide ∨ op = .modulo) ∧ (∃ n, l = .int n) ∧ r = .int 0) ∧
    ∀ op ∈ integerOps, ∀ v : Value, v.type = .int →
      op.apply (.null .int) v = .ok (.null .int) ∧ op.apply v (.null .int) = .ok (.null .int) := by
  refine ⟨fun op hop => apply_int hop a b, places_spec _, ⟨a >>> b, rfl, toInt_shiftRight a b⟩,
    fun hb => ?_, fun op l r => apply_eq_divideByZero_iff, fun op hop v hv => ?_⟩
  · have hguarded (f : Int32 → Int32 → Int32) :
        arithmetic (guarded f) (.int a) (.int b) = .ok (.int (f a b)) := by
      change (guarded f a b).map Value.int = _
      rw [guarded, if_neg hb]
      rfl
    obtain ⟨hless, hsign⟩ := toInt_mod_spec a hb
    exact ⟨a / b, a % b, hguarded (· / ·), hguarded (· % ·), toInt_div_cases a b,
      Int32.toInt_mod a b, hless, hsign, ofInt_div_mul_add_mod a b⟩
  · have hnull (f : Int32 → Int32 → Except Fault Int32) :
        arithmetic f (.null .int) v = .ok (.null .int) ∧
          arithmetic f v (.null .int) = .ok (.null .int) :=
      ⟨arithmetic_null rfl hv (.inl rfl), arithmetic_null hv rfl (.inr rfl)⟩
    cases op with
    | add | subtract | multiply | divide | modulo | leftShift | rightShift => exact hnull _
    | _ => exact absurd hop (by decide)

/-- The least integer divided by minus one is itself and leaves nothing, shifted to the right by
minus one it is minus one, and it cannot be divided by zero, as a null can. -/
theorem least_integer_is_reduced :
    (-1 : Int32) ≠ 0 ∧
    (∃ q r, apply .divide (.int Int32.minValue) (.int (-1)) = .ok (.int q) ∧
      apply .modulo (.int Int32.minValue) (.int (-1)) = .ok (.int r) ∧
      q = Int32.minValue ∧ r = 0 ∧ Int32.ofInt (q.toInt * -1 + r.toInt) = Int32.minValue) ∧
    apply .rightShift (.int Int32.minValue) (.int (-1)) = .ok (.int (-1)) ∧
    apply .divide (.int Int32.minValue) (.int 0) = .error .divideByZero ∧
    apply .modulo (.null .int) (.int 0) = .ok (.null .int) := by
  obtain ⟨hexact, -, -, hdivision, hzero, hnull⟩ :=
    integer_operators_reduce_exact_results Int32.minValue (-1)
  have hdivisor : (-1 : Int32) ≠ 0 := by decide
  obtain ⟨q, r, hq, hr, -, -, -, -, hsum⟩ := hdivision hdivisor
  have hquotient : q = Int32.minValue := by
    rw [hexact .divide (by decide)] at hq
    cases hq
    decide
  have hremainder : r = 0 := by
    rw [hexact .modulo (by decide)] at hr
    cases hr
    decide
  exact ⟨hdivisor, ⟨q, r, hq, hr, hquotient, hremainder, hsum⟩,
    hexact .rightShift (by decide), (hzero .divide _ _).mpr ⟨.inl rfl, ⟨_, rfl⟩, rfl⟩,
    (hnull .modulo (by decide) (.int 0) rfl).1⟩

end BinaryOp

end QueryParity
