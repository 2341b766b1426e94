import Mathlib.Algebra.Group.Nat.Defs
import TwoPass.Expression.Evaluation

/-! Shifts of 32-bit values. An amount that is not a place of the word pushes every bit out,
as so many single places would, and a negative one is such an amount. So amounts add up,
also when their sum leaves the signed range. -/
namespace TwoPass

/-- The amounts that name a place of the word, read as signed or not. -/
theorem Value.amount_iff (n : Value) : 0 ≤ n.toInt ∧ n.toInt ≤ 31 ↔ n.toNat < 32 := by
  rw [BitVec.toInt_eq_toNat_cond]
  split <;> omega

theorem Value.toNat_toInt {n : Value} (nonneg : 0 ≤ n.toInt) : n.toInt.toNat = n.toNat := by
  rw [BitVec.toInt_eq_toNat_of_lt (BitVec.toInt_pos_iff.mp nonneg), Int.toNat_natCast]

/-- Sums of amounts may look negative, but nothing is carried out of the word. -/
theorem Value.toNat_add_of_nonneg {m n : Value} (first : 0 ≤ m.toInt) (second : 0 ≤ n.toInt) :
    (m + n).toNat = m.toNat + n.toNat := by
  have low : 2 * m.toNat < 2 ^ 32 := BitVec.toInt_pos_iff.mp first
  have high : 2 * n.toNat < 2 ^ 32 := BitVec.toInt_pos_iff.mp second
  rw [BitVec.toNat_add, Nat.mod_eq_of_lt (by omega)]

theorem logicalShift_outside (shift : Value → Nat → Value) (v : Value) {n : Value}
    (outside : ¬(0 ≤ n.toInt ∧ n.toInt ≤ 31)) : logicalShift shift v n = 0 := by
  rw [n.amount_iff] at outside
  exact if_neg outside

/-- A shift of whole patterns, place by place. -/
structure PatternShift (shift : Value → Nat → Value) : Prop where
  /-- Nothing is left behind the last place. -/
  exhausted (v : Value) {k : Nat} (all : 32 ≤ k) : shift v k = 0
  compose (v : Value) (j k : Nat) : shift (shift v j) k = shift v (j + k)

theorem patternShift_left : PatternShift (· <<< ·) where
  exhausted _ _ all := BitVec.shiftLeft_eq_zero all
  compose v j k := (BitVec.shiftLeft_add v j k).symm

theorem patternShift_right : PatternShift (· >>> ·) where
  exhausted _ _ all := BitVec.ushiftRight_eq_zero all
  compose v j k := (BitVec.shiftRight_add v j k).symm

namespace PatternShift
variable {shift : Value → Nat → Value} (pattern : PatternShift shift)
include pattern

/-- The amount is the unsigned one, and looking at its range is not needed. -/
theorem logicalShift_eq (v n : Value) : logicalShift shift v n = shift v n.toNat := by
  rw [logicalShift]
  split
  · rfl
  · rename_i outside
    exact (pattern.exhausted v (by omega)).symm

theorem logicalShift_add {m n : Value} (first : 0 ≤ m.toInt) (second : 0 ≤ n.toInt) (v : Value) :
    logicalShift shift (logicalShift shift v m) n = logicalShift shift v (m + n) := by
  calc logicalShift shift (logicalShift shift v m) n = shift (shift v m.toNat) n.toNat := by
        rw [pattern.logicalShift_eq, pattern.logicalShift_eq]
    _ = shift v (m.toNat + n.toNat) := pattern.compose v _ _
    _ = logicalShift shift v (m + n) := by
        rw [pattern.logicalShift_eq, Value.toNat_add_of_nonneg first second]

end PatternShift

/-- The sign bit is gone after one place, and a negative amount has many. -/
theorem Value.shiftRight_nonneg (v : Value) {n : Value} (nonzero : n ≠ 0) :
    0 ≤ (v >>> n.toNat).toInt := by
  have places : 0 < n.toNat := Nat.pos_of_ne_zero fun none => nonzero (BitVec.eq_of_toNat_eq none)
  rw [BitVec.toInt_ushiftRight_of_lt places]
  exact Int.natCast_nonneg _

namespace BinaryOperator

theorem eval_shiftLeft (v n : Value) (line : Line) : shiftLeft.eval v n line = .ok (v <<< n.toNat) :=
  congrArg Except.ok (patternShift_left.logicalShift_eq v n)

theorem eval_shiftRight (v n : Value) (line : Line) : shiftRight.eval v n line = .ok (v >>> n.toNat) :=
  congrArg Except.ok (patternShift_right.logicalShift_eq v n)

/-- Both directions are one shift with a direction of its own. -/
theorem eval_shift {op : BinaryOperator} (direction : op = shiftLeft ∨ op = shiftRight) :
    ∃ shift, PatternShift shift ∧ ∀ v n line, op.eval v n line = .ok (logicalShift shift v n) := by
  rcases direction with rfl | rfl
  · exact ⟨_, patternShift_left, fun _ _ _ => rfl⟩
  · exact ⟨_, patternShift_right, fun _ _ _ => rfl⟩

/-- Shifts multiply and divide the unsigned pattern by a power of two, and their amounts add
up. Nothing that was shifted right by some places is negative. -/
theorem shifts_scale_pattern (x : Value) (line later : Line) :
    (∀ n : Value, 0 ≤ n.toInt → n.toInt ≤ 31 →
      (∃ y : Value, shiftLeft.eval x n line = .ok y ∧ y.toNat = x.toNat * 2 ^ n.toInt.toNat % 2 ^ 32) ∧
      ∃ y : Value, shiftRight.eval x n line = .ok y ∧ y.toNat = x.toNat / 2 ^ n.toInt.toNat) ∧
    (∀ n : Value, ¬(0 ≤ n.toInt ∧ n.toInt ≤ 31) →
      shiftLeft.eval x n line = .ok 0 ∧ shiftRight.eval x n line = .ok 0) ∧
    (∀ op, op = shiftLeft ∨ op = shiftRight → ∀ m n : Value, 0 ≤ m.toInt → 0 ≤ n.toInt →
      ∃ y, op.eval x m line = .ok y ∧ op.eval y n later = op.eval x (m + n) later) ∧
    ∀ n : Value, n ≠ 0 → ∃ y : Value, shiftRight.eval x n line = .ok y ∧ 0 ≤ y.toInt := by
  refine ⟨?_, ?_, ?_, ?_⟩
  · -- The upper bound only keeps this apart from the next case: a larger amount leaves 0 here too.
    intro n nonneg _
    rw [Value.toNat_toInt nonneg]
    refine ⟨⟨_, eval_shiftLeft x n line, ?_⟩, ⟨_, eval_shiftRight x n line, ?_⟩⟩
    · rw [BitVec.toNat_shiftLeft, Nat.shiftLeft_eq]
    · rw [BitVec.toNat_ushiftRight, Nat.shiftRight_eq_div_pow]
  · intro n outside
    exact ⟨congrArg Except.ok (logicalShift_outside _ x outside),
      congrArg Except.ok (logicalShift_outside _ x outside)⟩
  · intro op direction m n first second
    obtain ⟨shift, pattern, eval_eq⟩ := eval_shift direction
    refine ⟨logicalShift shift x m, eval_eq x m line, ?_⟩
    rw [eval_eq, eval_eq, pattern.logicalShift_add first second]
  · intro n nonzero
    exact ⟨_, eval_shiftRight x n line, x.shiftRight_nonneg nonzero⟩

end BinaryOperator
end TwoPass
