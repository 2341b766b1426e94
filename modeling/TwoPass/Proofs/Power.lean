import Mathlib.Algebra.Order.Field.Power
import Mathlib.Algebra.Ring.Int.Parity
import TwoPass.Proofs.Rounding

/-! Powers of 32-bit values. Capping the exponent changes neither a power that fits in 32
bits nor the fact that it does not fit, and the same results come from a real power that
is rounded to a double and cut to an integer. -/
namespace TwoPass

theorem Value.ofInt?_eq_some_iff {n : ℤ} {v : Value} : ofInt? n = some v ↔ v.toInt = n := by
  have low := v.le_toInt
  have high := v.toInt_lt
  rw [ofInt?]
  split
  · rename_i fits
    rw [Option.some.injEq]
    constructor
    · rintro rfl
      exact BitVec.toInt_ofInt_eq_self (by omega) (by omega) (by omega)
    · rintro rfl
      exact BitVec.ofInt_toInt
  · rename_i unfit
    exact iff_of_false (by simp) (by omega)

/-- Powers of a base other than 0, 1 and -1 soon need more than 32 bits. -/
theorem power_unfit {b : ℤ} (large : 2 ≤ b.natAbs) {n : ℕ} (many : 32 ≤ n) : Value.ofInt? (b ^ n) = none := by
  have grown : 2 ^ 32 ≤ (b ^ n).natAbs := by
    rw [Int.natAbs_pow]
    calc 2 ^ 32 ≤ 2 ^ n := Nat.pow_le_pow_right (by omega) many
      _ ≤ b.natAbs ^ n := Nat.pow_le_pow_left large n
  rw [Value.ofInt?_eq_none_iff]
  omega

theorem even_cappedExponent (n : ℕ) : Even (cappedExponent n) ↔ Even n := by
  rw [cappedExponent]
  split
  · rfl
  · rw [Nat.even_iff, Nat.even_iff]
    omega

/-- The powers of small bases only see the parity of a positive exponent. -/
theorem power_small {b : ℤ} (small : b.natAbs < 2) {m n : ℕ} (positive : 0 < m ∧ 0 < n)
    (parity : Even m ↔ Even n) : b ^ m = b ^ n := by
  have bases : b = 0 ∨ b = 1 ∨ b = -1 := by omega
  rcases bases with rfl | rfl | rfl
  · rw [zero_pow positive.1.ne', zero_pow positive.2.ne']
  · rw [one_pow, one_pow]
  · exact neg_one_pow_congr parity

theorem ofInt?_cappedExponent (b : ℤ) (n : ℕ) :
    Value.ofInt? (b.pow (cappedExponent n)) = Value.ofInt? (b ^ n) := by
  rcases Nat.lt_or_ge 32 n with many | few
  · have capped : 32 ≤ cappedExponent n := by
      rw [cappedExponent, if_neg (by omega)]
      omega
    rcases Nat.lt_or_ge b.natAbs 2 with small | large
    · have same := power_small small ⟨by omega, by omega⟩ (even_cappedExponent n)
      exact congrArg Value.ofInt? same
    · exact (power_unfit large capped).trans (power_unfit large many.le).symm
  · rw [cappedExponent, if_pos few]
    rfl

section
variable {b e : Value}

theorem power?_of_nonneg (nonneg : 0 ≤ e.toInt) :
    power? b e = Value.ofInt? (b.toInt ^ e.toInt.toNat) := by
  rw [power?, truncatedPower, if_pos nonneg, Option.bind_some, ofInt?_cappedExponent]

theorem power?_of_zero (negative : e.toInt < 0) (zero : b.toInt = 0) : power? b e = none := by
  rw [power?, truncatedPower, if_neg (by omega), if_pos zero]
  rfl

theorem power?_of_unit (negative : e.toInt < 0) (unit : b.toInt.natAbs = 1) :
    power? b e = Value.ofInt? (b.toInt ^ e.toInt.natAbs) := by
  rw [power?, truncatedPower, if_neg (by omega), if_neg (by omega), if_pos unit, Option.bind_some,
    ofInt?_cappedExponent]

theorem power?_of_one (negative : e.toInt < 0) (one : b.toInt = 1 ∨ b.toInt = -1 ∧ Even e.toInt) :
    power? b e = some 1 := by
  rw [power?_of_unit negative (by omega), Value.ofInt?_eq_some_iff]
  rcases one with one | ⟨minus, even⟩
  · rw [one, one_pow]
    rfl
  · rw [minus, (Int.natAbs_even.mpr even).neg_one_pow]
    rfl

theorem power?_of_minus (negative : e.toInt < 0) (minus : b.toInt = -1) (odd : Odd e.toInt) :
    power? b e = some (-1) := by
  rw [power?_of_unit negative (by omega), Value.ofInt?_eq_some_iff, minus,
    (Int.natAbs_odd.mpr odd).neg_one_pow]
  rfl

theorem power?_of_large (negative : e.toInt < 0) (large : 2 ≤ b.toInt.natAbs) : power? b e = some 0 := by
  rw [power?, truncatedPower, if_neg (by omega), if_neg (by omega), if_neg (by omega)]
  rfl

theorem power?_eq_none_iff (b e : Value) :
    power? b e = none ↔
      0 ≤ e.toInt ∧ ¬(-2 ^ 31 ≤ b.toInt ^ e.toInt.toNat ∧ b.toInt ^ e.toInt.toNat ≤ 2 ^ 31 - 1) ∨
      e.toInt < 0 ∧ b.toInt = 0 := by
  rcases lt_or_ge e.toInt 0 with negative | nonneg
  · simp only [negative, not_le.mpr negative, true_and, false_and, false_or]
    constructor
    · intro none
      by_contra nonzero
      have bases : b.toInt = 1 ∨ b.toInt = -1 ∨ 2 ≤ b.toInt.natAbs := by omega
      rcases bases with one | minus | large
      · simp [power?_of_one negative (.inl one)] at none
      · rcases Int.even_or_odd e.toInt with even | odd
        · simp [power?_of_one negative (.inr ⟨minus, even⟩)] at none
        · simp [power?_of_minus negative minus odd] at none
      · simp [power?_of_large negative large] at none
    · intro zero
      exact power?_of_zero negative zero
  · simp only [nonneg, not_lt.mpr nonneg, true_and, false_and, or_false]
    rw [power?_of_nonneg nonneg, Value.ofInt?_eq_none_iff]

end

/-- What the correctly rounded power of two integers is. -/
def PowerRounds (b e : ℤ) (r : Option ℚ) : Prop :=
  if b = 0 ∧ e < 0 then r = none else RoundsTo ((b : ℚ) ^ e) r

theorem exists_powerRounds (b e : ℤ) : ∃ r, PowerRounds b e r := by
  simp only [PowerRounds]
  split
  · exact ⟨none, rfl⟩
  · exact exists_roundsTo _

theorem unit_zpow {b : ℤ} (unit : b.natAbs = 1) (e : ℤ) : (b : ℚ) ^ e = ((b ^ e.natAbs : ℤ) : ℚ) := by
  rcases Int.natAbs_eq_iff.mp unit with rfl | rfl
  · simp
  · rcases Int.even_or_odd e with even | odd
    · rw [(Int.natAbs_even.mpr even).neg_pow]
      simp [even.neg_one_zpow]
    · rw [(Int.natAbs_odd.mpr odd).neg_pow]
      simp [odd.neg_one_zpow]

theorem abs_zpow_le_half {b : ℤ} (large : 2 ≤ b.natAbs) {e : ℤ} (negative : e < 0) :
    |(b : ℚ) ^ e| ≤ 1 / 2 := by
  have two : (2 : ℚ) ≤ |(b : ℚ)| := by
    rw [← Int.cast_abs, Int.abs_eq_natAbs]
    exact_mod_cast large
  calc |(b : ℚ) ^ e| = |(b : ℚ)| ^ e := abs_zpow _ e
    _ ≤ |(b : ℚ)| ^ (-1 : ℤ) := zpow_le_zpow_right₀ (by linarith) (by omega)
    _ = 1 / |(b : ℚ)| := by rw [zpow_neg_one, one_div]
    _ ≤ 1 / 2 := one_div_le_one_div_of_le (by norm_num) two

/-- The power of integers does not differ from the real power, rounded and cut. -/
theorem power?_eq_ofDouble? {b e : Value} {r : Option ℚ} (rounds : PowerRounds b.toInt e.toInt r) :
    power? b e = Value.ofDouble? r := by
  rw [PowerRounds] at rounds
  split at rounds
  · rename_i undefined
    rw [power?_of_zero undefined.2 undefined.1, rounds]
    rfl
  · rename_i defined
    rcases lt_or_ge e.toInt 0 with negative | nonneg
    · have bases : b.toInt.natAbs = 1 ∨ 2 ≤ b.toInt.natAbs := by omega
      rcases bases with unit | large
      · rw [unit_zpow unit] at rounds
        rw [power?_of_unit negative unit, Value.ofDouble?_intCast rounds]
      · rw [power?_of_large negative large, Value.ofDouble?_fraction (abs_zpow_le_half large negative) rounds]
    · have integral : (b.toInt : ℚ) ^ e.toInt = ((b.toInt ^ e.toInt.toNat : ℤ) : ℚ) := by
        rw [Int.cast_pow, ← zpow_natCast, Int.toNat_of_nonneg nonneg]
      rw [integral] at rounds
      rw [power?_of_nonneg nonneg, Value.ofDouble?_intCast rounds]

/-- Without a result, the fault names both operands. -/
theorem BinaryOperator.eval_power (b e : Value) (line : Line) :
    power.eval b e line = (power? b e).elim (.error (.exponentOverflow b e line)) .ok := by
  rw [eval]
  cases power? b e <;> rfl

/-- The power of two values is that of the integers, if it fits in 32 bits. With a negative
exponent only the bases 1 and -1 leave anything of it, and 0 has no power. -/
theorem BinaryOperator.power_exact (b e : Value) (line : Line) :
    ((∃ r, PowerRounds b.toInt e.toInt r) ∧ ∀ r, PowerRounds b.toInt e.toInt r →
      power.eval b e line = (Value.ofDouble? r).elim (.error (.exponentOverflow b e line)) .ok) ∧
    (0 ≤ e.toInt → -2 ^ 31 ≤ b.toInt ^ e.toInt.toNat ∧ b.toInt ^ e.toInt.toNat ≤ 2 ^ 31 - 1 →
      ∃ v : Value, power.eval b e line = .ok v ∧ v.toInt = b.toInt ^ e.toInt.toNat) ∧
    (e.toInt < 0 → b.toInt = 1 ∨ b.toInt = -1 ∧ Even e.toInt → power.eval b e line = .ok 1) ∧
    (e.toInt < 0 → b.toInt = -1 ∧ Odd e.toInt → power.eval b e line = .ok (-1)) ∧
    (e.toInt < 0 → 2 ≤ |b.toInt| → power.eval b e line = .ok 0) ∧
    ∀ fault, power.eval b e line = .error fault ↔ fault = .exponentOverflow b e line ∧
      (0 ≤ e.toInt ∧ ¬(-2 ^ 31 ≤ b.toInt ^ e.toInt.toNat ∧ b.toInt ^ e.toInt.toNat ≤ 2 ^ 31 - 1) ∨
        e.toInt < 0 ∧ b.toInt = 0) := by
  simp only [eval_power]
  refine ⟨⟨exists_powerRounds _ _, ?_⟩, ?_, ?_, ?_, ?_, ?_⟩
  · intro r rounds
    rw [power?_eq_ofDouble? rounds]
  · intro nonneg fits
    have some_value := mt (Value.ofInt?_eq_none_iff _).mp (not_not_intro fits)
    obtain ⟨v, found⟩ := Option.ne_none_iff_exists'.mp some_value
    rw [power?_of_nonneg nonneg, found]
    exact ⟨v, rfl, Value.ofInt?_eq_some_iff.mp found⟩
  · intro negative one
    rw [power?_of_one negative one]
    rfl
  · rintro negative ⟨minus, odd⟩
    rw [power?_of_minus negative minus odd]
    rfl
  · intro negative large
    rw [Int.abs_eq_natAbs] at large
    rw [power?_of_large negative (by omega)]
    rfl
  · intro fault
    rw [← power?_eq_none_iff]
    cases power? b e with
    | none => simp [eq_comm]
    | some v => simp

end TwoPass
