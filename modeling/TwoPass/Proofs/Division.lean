import TwoPass.Proofs.Operands
import TwoPass.Proofs.Rounding

/-! Division of 32-bit values. The quotient is the rational one cut toward zero, so what
remains has the sign of the dividend. A single quotient needs more than 32 bits, and it
wraps around to its own dividend. -/
namespace TwoPass

theorem truncate_neg (x : ℚ) : truncate (-x) = -truncate x := by
  rw [truncate, truncate, Int.floor_neg, Int.ceil_neg]
  rcases lt_trichotomy x 0 with negative | rfl | positive
  · rw [if_pos (by linarith), if_neg (by linarith)]
  · simp
  · rw [if_neg (by linarith), if_pos positive.le]

theorem truncate_natCast_div (m n : ℕ) : truncate ((m : ℚ) / n) = ((m / n : ℕ) : ℤ) := by
  have nonneg : (0 : ℚ) ≤ (m : ℚ) / n := by positivity
  rw [truncate, if_pos nonneg, Rat.floor_natCast_div_natCast, Int.natCast_div]

/-- Signs go through a quotient that is cut toward zero, so it is that of the absolute values. -/
theorem truncate_intCast_div (a b : ℤ) : truncate ((a : ℚ) / b) = a.tdiv b := by
  obtain ⟨m, rfl | rfl⟩ := a.eq_nat_or_neg <;> obtain ⟨n, rfl | rfl⟩ := b.eq_nat_or_neg <;>
    simp only [Int.cast_neg, Int.cast_natCast, neg_div, div_neg, truncate_neg, truncate_natCast_div,
      Int.neg_tdiv, Int.tdiv_neg, Int.ofNat_tdiv]

namespace Value
variable (a b : Value)

theorem sdiv_eq_ofInt : a.sdiv b = BitVec.ofInt 32 (a.toInt.tdiv b.toInt) := by
  apply BitVec.eq_of_toInt_eq
  rw [BitVec.toInt_sdiv, BitVec.toInt_ofInt]

theorem srem_eq_ofInt : a.srem b = BitVec.ofInt 32 (a.toInt.tmod b.toInt) := by
  rw [← BitVec.toInt_srem, BitVec.ofInt_toInt]

/-- Reducing to 32 bits keeps sums and products, so the division of integers carries over. -/
theorem sdiv_mul_add_srem : a.sdiv b * b + a.srem b = a := by
  calc a.sdiv b * b + a.srem b
      = BitVec.ofInt 32 (a.toInt.tdiv b.toInt) * BitVec.ofInt 32 b.toInt +
          BitVec.ofInt 32 (a.toInt.tmod b.toInt) := by
        rw [sdiv_eq_ofInt, srem_eq_ofInt, BitVec.ofInt_toInt]
    _ = BitVec.ofInt 32 (a.toInt.tdiv b.toInt * b.toInt + a.toInt.tmod b.toInt) := by
        rw [BitVec.ofInt_add, BitVec.ofInt_mul]
    _ = a := by rw [Int.tdiv_mul_add_tmod, BitVec.ofInt_toInt]

variable {b} in
theorem abs_srem_lt (nonzero : b ≠ 0) : |(a.srem b).toInt| < |b.toInt| := by
  have divisor : b.toInt ≠ 0 := fun zero => nonzero (BitVec.eq_of_toInt_eq zero)
  rw [BitVec.toInt_srem, Int.abs_eq_natAbs, Int.abs_eq_natAbs, Int.natAbs_tmod, Int.ofNat_lt]
  exact Nat.mod_lt _ (Int.natAbs_pos.mpr divisor)

/-- Something remains only of a dividend that is no multiple of the divisor. -/
theorem sign_srem : a.srem b = 0 ∨ (a.srem b).toInt.sign = a.toInt.sign := by
  have sign := Int.sign_tmod a.toInt b.toInt
  rw [← BitVec.toInt_srem] at sign
  split at sign
  · left
    exact BitVec.eq_of_toInt_eq (Int.sign_eq_zero_iff_zero.mp sign)
  · right
    exact sign

/-- The one pair of values whose quotient is not a value. -/
theorem toInt_sdiv_ne_iff :
    (a.sdiv b).toInt ≠ a.toInt.tdiv b.toInt ↔ a.toInt = -2 ^ 31 ∧ b.toInt = -1 := by
  constructor
  · intro differs
    by_contra other
    apply differs
    -- Apart from that pair, the library has the quotient exact already.
    apply BitVec.toInt_sdiv_of_ne_or_ne
    by_contra both
    rw [not_or, not_not, not_not] at both
    exact other ⟨congrArg BitVec.toInt both.1, congrArg BitVec.toInt both.2⟩
  · rintro ⟨least, minus⟩
    rw [BitVec.toInt_sdiv, least, minus]
    decide

end Value

namespace BinaryOperator

theorem eval_divide (a : Value) {b : Value} (nonzero : b ≠ 0) (line : Line) :
    divide.eval a b line = .ok (a.sdiv b) :=
  if_neg nonzero

theorem eval_modulus (a : Value) {b : Value} (nonzero : b ≠ 0) (line : Line) :
    modulus.eval a b line = .ok (a.srem b) :=
  if_neg nonzero

/-- Divisions fail for a zero divisor and for nothing else. The quotient is that of the
integers, cut toward zero and reduced to 32 bits, and the remainder is what belongs to it. -/
theorem division_truncates (a b : Value) (line : Line) :
    (∀ op, op = divide ∨ op = modulus → ∀ fault,
      op.eval a b line = .error fault ↔ b = 0 ∧ fault = .divisionByZero op line) ∧
    (b ≠ 0 → ∃ q r : Value, divide.eval a b line = .ok q ∧ modulus.eval a b line = .ok r ∧
      q * b + r = a ∧ |r.toInt| < |b.toInt| ∧ (r = 0 ∨ r.toInt.sign = a.toInt.sign) ∧
      q = BitVec.ofInt 32 (truncate ((a.toInt : ℚ) / b.toInt)) ∧
      (q.toInt ≠ truncate ((a.toInt : ℚ) / b.toInt) ↔ a.toInt = -2 ^ 31 ∧ b.toInt = -1) ∧
      (a.toInt = -2 ^ 31 → b.toInt = -1 → q.toInt = -2 ^ 31 ∧ r = 0)) := by
  constructor
  · intro op division fault
    rw [eval_eq_error_iff]
    rcases division with rfl | rfl <;> simp [eq_comm (a := fault)]
  · intro nonzero
    rw [truncate_intCast_div]
    refine ⟨a.sdiv b, a.srem b, eval_divide a nonzero line, eval_modulus a nonzero line,
      Value.sdiv_mul_add_srem a b, Value.abs_srem_lt a nonzero, Value.sign_srem a b,
      Value.sdiv_eq_ofInt a b, Value.toInt_sdiv_ne_iff a b, ?_⟩
    intro least minus
    have dividend : a = BitVec.intMin 32 := BitVec.eq_of_toInt_eq least
    have divisor : b = -1 := BitVec.eq_of_toInt_eq minus
    rw [dividend, divisor]
    decide

-- The division of `Int` rounds down, to -4 with 1 left over.
example : divide.eval (-7) 2 1 = .ok (-3) ∧ modulus.eval (-7) 2 1 = .ok (-1) := by decide

end BinaryOperator
end TwoPass
