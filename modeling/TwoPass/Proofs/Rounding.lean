import Mathlib.Data.Finite.Prod
import Mathlib.Data.Int.Interval
import Mathlib.Data.Rat.Floor
import Mathlib.Data.Set.Finite.Lemmas
import Mathlib.Tactic.Linarith
import Mathlib.Tactic.NormNum
import TwoPass.Expression.Evaluation

/-! Rationals that are rounded to doubles and then cut to 32 bits. Rounding never passes a
double, so it moves neither an integer that fits nor a number out of the range that fits. -/
namespace TwoPass

/-- The finite binary64 numbers, with all the ways to write them. -/
def IsDouble (x : ℚ) : Prop :=
  ∃ m e : ℤ, |m| < 2 ^ 53 ∧ -1074 ≤ e ∧ e ≤ 971 ∧ x = m * 2 ^ e

/-- The largest double and half a unit of its last place: from here on, numbers round to
an infinity. -/
def overflowBound : ℚ :=
  (2 ^ 54 - 1) * 2 ^ 970

/-- Rounding to a nearest double, to any if there are two; `none` stands for an infinity. -/
inductive RoundsTo (x : ℚ) : Option ℚ → Prop
  | finite {r : ℚ} (small : |x| < overflowBound) (double : IsDouble r)
      (nearest : ∀ d, IsDouble d → |r - x| ≤ |d - x|) : RoundsTo x (some r)
  | infinite (large : overflowBound ≤ |x|) : RoundsTo x none

theorem isDouble_intCast {n : ℤ} (short : |n| < 2 ^ 53) : IsDouble n :=
  ⟨n, 0, short, by omega, by omega, by simp⟩

theorem finite_doubles : {x : ℚ | IsDouble x}.Finite := by
  have pairs := (Set.finite_Icc (-2 ^ 53 : ℤ) (2 ^ 53)).prod (Set.finite_Icc (-1074 : ℤ) 971)
  refine (pairs.image fun p => (p.1 : ℚ) * 2 ^ p.2).subset ?_
  rintro x ⟨m, e, short, low, high, rfl⟩
  have bounds := abs_lt.mp short
  exact ⟨(m, e), ⟨⟨bounds.1.le, bounds.2.le⟩, low, high⟩, rfl⟩

/-- Every number rounds to something, since there are finitely many doubles. -/
theorem exists_roundsTo (x : ℚ) : ∃ r, RoundsTo x r := by
  rcases lt_or_ge |x| overflowBound with small | large
  · have zero : IsDouble 0 := by simpa using isDouble_intCast (n := 0) (by norm_num)
    obtain ⟨r, double, nearest⟩ := Set.exists_min_image _ (fun d => |d - x|) finite_doubles ⟨0, zero⟩
    exact ⟨some r, .finite small double nearest⟩
  · exact ⟨none, .infinite large⟩

section
variable {x r d : ℚ} (rounds : RoundsTo x (some r)) (double : IsDouble d)
include rounds double

/-- Rounding does not pass a double on the way down. -/
theorem RoundsTo.le_of_le (above : d ≤ x) : d ≤ r := by
  obtain ⟨-, -, nearest⟩ := rounds
  by_contra below
  have closer := nearest d double
  rw [abs_of_nonpos (by linarith), abs_of_nonpos (by linarith)] at closer
  linarith

theorem RoundsTo.ge_of_ge (below : x ≤ d) : r ≤ d := by
  obtain ⟨-, -, nearest⟩ := rounds
  by_contra above
  have closer := nearest d double
  rw [abs_of_nonneg (by linarith), abs_of_nonneg (by linarith)] at closer
  linarith

end

/-- The integer part, toward zero. -/
def truncate (x : ℚ) : ℤ :=
  if 0 ≤ x then ⌊x⌋ else ⌈x⌉

theorem le_truncate {n : ℤ} (positive : 0 ≤ n) {x : ℚ} (above : n ≤ x) : n ≤ truncate x := by
  have nonneg : (0 : ℚ) ≤ x := le_trans (by exact_mod_cast positive) above
  rw [truncate, if_pos nonneg]
  exact Int.le_floor.mpr above

theorem truncate_le {n : ℤ} (negative : n < 0) {x : ℚ} (below : x ≤ n) : truncate x ≤ n := by
  have minus : ¬0 ≤ x := not_le.mpr (lt_of_le_of_lt below (by exact_mod_cast negative))
  rw [truncate, if_neg minus]
  exact Int.ceil_le.mpr below

theorem truncate_intCast (n : ℤ) : truncate n = n := by
  rw [truncate, Int.floor_intCast, Int.ceil_intCast, ite_self]

theorem truncate_fraction {x : ℚ} (low : -1 < x) (high : x < 1) : truncate x = 0 := by
  rw [truncate]
  split
  · rename_i nonneg
    exact Int.floor_eq_zero_iff.mpr ⟨nonneg, high⟩
  · rename_i minus
    exact Int.ceil_eq_zero_iff.mpr ⟨low, (not_le.mp minus).le⟩

/-- The integer part of a double if it fits in 32 bits; infinities do not. -/
def Value.ofDouble? (r : Option ℚ) : Option Value :=
  r.bind fun x => ofInt? (truncate x)

theorem Value.ofInt?_eq_none_iff (n : ℤ) : ofInt? n = none ↔ ¬(-2 ^ 31 ≤ n ∧ n ≤ 2 ^ 31 - 1) := by
  rw [ofInt?]
  split
  · rename_i fits
    exact iff_of_false (by simp) (not_not_intro (by omega))
  · rename_i unfit
    exact iff_of_true rfl (by omega)

theorem lt_overflowBound {x : ℚ} (small : |x| ≤ 2 ^ 31) : |x| < overflowBound := by
  have unit : (1 : ℚ) ≤ 2 ^ 970 := one_le_pow₀ (by norm_num)
  calc |x| < 2 ^ 54 - 1 := lt_of_le_of_lt small (by norm_num)
    _ ≤ overflowBound := le_mul_of_one_le_right (by norm_num) unit

section
variable {n : ℤ}

/-- A double is its own rounding. -/
theorem RoundsTo.eq_of_double {x r : ℚ} (rounds : RoundsTo x (some r)) (double : IsDouble x) : r = x :=
  le_antisymm (rounds.ge_of_ge double le_rfl) (rounds.le_of_le double le_rfl)

/-- An integer that does not fit in 32 bits does not fit when it is rounded. -/
theorem RoundsTo.unfit {r : ℚ} (rounds : RoundsTo n (some r)) (unfit : ¬(-2 ^ 31 ≤ n ∧ n ≤ 2 ^ 31 - 1)) :
    ¬(-2 ^ 31 ≤ truncate r ∧ truncate r ≤ 2 ^ 31 - 1) := by
  rcases le_or_gt (2 ^ 31) n with high | within
  · have above : ((2 ^ 31 : ℤ) : ℚ) ≤ r :=
      rounds.le_of_le (isDouble_intCast (by norm_num)) (by exact_mod_cast high)
    have cut := le_truncate (by norm_num) above
    omega
  · have low : n ≤ -2 ^ 31 - 1 := by omega
    have below : r ≤ ((-2 ^ 31 - 1 : ℤ) : ℚ) :=
      rounds.ge_of_ge (isDouble_intCast (by norm_num)) (by exact_mod_cast low)
    have cut := truncate_le (by norm_num) below
    omega

/-- An integer comes out of rounding as it was, or fits neither before nor after. -/
theorem Value.ofDouble?_intCast {r : Option ℚ} (rounds : RoundsTo n r) : ofDouble? r = ofInt? n := by
  by_cases fits : -2 ^ 31 ≤ n ∧ n ≤ 2 ^ 31 - 1
  · have short : |n| ≤ 2 ^ 31 := abs_le.mpr ⟨fits.1, by omega⟩
    cases rounds with
    | infinite large => exact absurd (lt_overflowBound (by exact_mod_cast short)) (not_lt.mpr large)
    | finite small double nearest =>
      have same := (RoundsTo.finite small double nearest).eq_of_double
        (isDouble_intCast (lt_of_le_of_lt short (by norm_num)))
      rw [same, ofDouble?, Option.bind_some, truncate_intCast]
  · rw [(ofInt?_eq_none_iff n).mpr fits]
    cases rounds with
    | infinite large => rfl
    | finite small double nearest =>
      exact (ofInt?_eq_none_iff _).mpr ((RoundsTo.finite small double nearest).unfit fits)

end

/-- Nothing is left of a number that is at most a half. -/
theorem Value.ofDouble?_fraction {x : ℚ} (small : |x| ≤ 1 / 2) {r : Option ℚ} (rounds : RoundsTo x r) :
    ofDouble? r = some 0 := by
  have bounds := abs_le.mp small
  cases rounds with
  | infinite large => exact absurd (lt_overflowBound (small.trans (by norm_num))) (not_lt.mpr large)
  | @finite r within double nearest =>
    have rounds := RoundsTo.finite within double nearest
    have half : IsDouble (1 / 2) := ⟨1, -1, by norm_num, by omega, by omega, by norm_num⟩
    have minus : IsDouble (-(1 / 2)) := ⟨-1, -1, by norm_num, by omega, by omega, by norm_num⟩
    have high := rounds.ge_of_ge half bounds.2
    have low := rounds.le_of_le minus bounds.1
    rw [ofDouble?, Option.bind_some, truncate_fraction (by linarith) (by linarith)]
    rfl

end TwoPass
