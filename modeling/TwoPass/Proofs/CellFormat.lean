import Mathlib.Algebra.Group.Nat.Defs
import Mathlib.Algebra.Ring.Int.Defs
import TwoPass.Storage.Cell

/-! The bits of cells. Placing and patching words keeps the format of a memory:
program words have 26 bits, data words 16, and all that a free cell can ever hold is
a literal that was patched into program memory. -/
namespace TwoPass

/-- Bits that a cell can hold besides its mark. -/
def Memory.cellBits : Memory → (used : Bool) → Nat
  | .program, true => 26
  | .program, false => 16
  | .data, true => 16
  | .data, false => 0

theorem Memory.toNat_and_wordMask (m : Memory) (v : Value) :
    (v &&& m.wordMask).toNat = v.toNat % 2 ^ m.cellBits true := by
  cases m with
  | program => exact Nat.and_two_pow_sub_one_eq_mod v.toNat 26
  | data => exact Nat.and_two_pow_sub_one_eq_mod v.toNat 16

/-- Signed or not, a value has the same low half. -/
theorem Value.toInt_emod_literal (v : Value) : v.toInt % 2 ^ 16 = ((v.toNat % 2 ^ 16 : Nat) : Int) := by
  have signed := BitVec.toInt_eq_toNat_cond v
  split at signed <;> omega

namespace Cell

theorem value_mod (c : Cell) : c.value % 2 ^ 16 = c.literal.toNat := by
  have literal := c.literal.isLt
  simp only [value]
  omega

theorem value_div (c : Cell) : c.value / 2 ^ 16 = c.upper.toNat := by
  have literal := c.literal.isLt
  simp only [value]
  omega

/-- The contents fit the format of the memory. -/
def Formed (m : Memory) (c : Cell) : Prop :=
  c.value < 2 ^ m.cellBits c.used

instance (m : Memory) (c : Cell) : Decidable (c.Formed m) :=
  inferInstanceAs (Decidable (_ < _))

theorem value_ofWord (word : BitVec 32) : (ofWord word).value = word.toNat % 2 ^ 31 := by
  simp only [ofWord, value, BitVec.extractLsb'_toNat, BitVec.toNat_setWidth,
    Nat.shiftRight_eq_div_pow]
  omega

theorem value_placed (m : Memory) (v : Value) :
    (placed m v).value = v.toNat % 2 ^ m.cellBits true := by
  rw [placed, value_ofWord, Memory.toNat_and_wordMask]
  cases m <;> simp only [Memory.cellBits] <;> omega

theorem literal_placed (m : Memory) (v : Value) : (placed m v).literal.toNat = v.toNat % 2 ^ 16 := by
  rw [← value_mod, value_placed]
  cases m <;> simp only [Memory.cellBits] <;> omega

theorem formed_free (m : Memory) : free.Formed m := by
  cases m <;> decide

theorem formed_placed (m : Memory) (v : Value) : (placed m v).Formed m := by
  have bound : v.toNat % 2 ^ m.cellBits true < 2 ^ m.cellBits true :=
    Nat.mod_lt _ (Nat.two_pow_pos _)
  rw [Formed, value_placed]
  exact bound

theorem formed_patched {m : Memory} {c : Cell} (formed : c.Formed m) (v : Value) :
    (patched m c v).Formed m := by
  cases m with
  | program =>
    have literal := (c.literal + v.setWidth 16).isLt
    simp only [Formed, value, patched, withLiteral] at formed ⊢
    -- The literal field lies below every bound, so only the bits above it matter.
    cases used : c.used with
    | true => simp only [used, Memory.cellBits] at formed ⊢; omega
    | false => simp only [used, Memory.cellBits] at formed ⊢; omega
  | data => exact formed_placed .data v

theorem formed_foldl_patched {m : Memory} {c : Cell} (formed : c.Formed m) (values : List Value) :
    (values.foldl (patched m) c).Formed m := by
  induction values generalizing c with
  | nil => exact formed
  | cons v values ih => exact ih (formed_patched formed v)

theorem Formed.value_lt_word {m : Memory} {c : Cell} (formed : c.Formed m) :
    c.value < 2 ^ m.cellBits true := by
  have narrow : m.cellBits c.used ≤ m.cellBits true := by cases m <;> cases c.used <;> decide
  exact Nat.lt_of_lt_of_le formed (Nat.pow_le_pow_right (by decide) narrow)

/-- Whatever its memory, no cell has more than 26 bits. -/
theorem Formed.value_lt {m : Memory} {c : Cell} (formed : c.Formed m) : c.value < 2 ^ 26 := by
  have narrow : m.cellBits true ≤ 26 := by cases m <;> decide
  exact Nat.lt_of_lt_of_le formed.value_lt_word (Nat.pow_le_pow_right (by decide) narrow)

theorem value_elim_placed (m : Memory) (w : Option Value) :
    (w.elim free (placed m)).value = (w.getD 0).toNat % 2 ^ m.cellBits true := by
  cases w with
  | none => cases m <;> rfl
  | some w => exact value_placed m w

theorem formed_elim_placed (m : Memory) (w : Option Value) : (w.elim free (placed m)).Formed m := by
  cases w with
  | none => exact formed_free m
  | some w => exact formed_placed m w

/-- Patches of a program cell add up. -/
theorem literal_foldl_patched (c : Cell) (values : List Value) :
    ((values.foldl (patched .program) c).literal.toNat : Int) =
      (c.literal.toNat + (values.map BitVec.toInt).sum) % 2 ^ 16 := by
  induction values generalizing c with
  | nil =>
    have bound := c.literal.isLt
    simp only [List.foldl_nil, List.map_nil, List.sum_nil]
    omega
  | cons v values ih =>
    have low := v.toInt_emod_literal
    rw [List.foldl_cons, ih, List.map_cons, List.sum_cons]
    simp only [patched, withLiteral, BitVec.toNat_add, BitVec.toNat_setWidth]
    omega

theorem used_foldl_patched (c : Cell) (values : List Value) :
    (values.foldl (patched .program) c).used = c.used := by
  induction values generalizing c with
  | nil => rfl
  | cons v values ih => exact ih _

theorem upper_foldl_patched (c : Cell) (values : List Value) :
    (values.foldl (patched .program) c).upper = c.upper := by
  induction values generalizing c with
  | nil => rfl
  | cons v values ih => exact ih _

/-- Of the patches of a data cell only the last one stays. -/
theorem foldl_patched_data (c : Cell) (values : List Value) :
    values.foldl (patched .data) c = values.getLast?.elim c (placed .data) := by
  induction values generalizing c with
  | nil => rfl
  | cons v values ih =>
    rw [List.foldl_cons, ih, List.getLast?_cons]
    cases values.getLast? <;> rfl

end Cell
end TwoPass
