import TwoPass.Numeral
import TwoPass.Storage.Memory

/-! One memory cell: 31 bits of contents, split at the literal field, and whether
anything was placed there. A patch of program memory reaches the literal field
only, so a cell that was never placed stays free under it. -/
namespace TwoPass

structure Cell where
  used : Bool
  /-- The bits above the literal field. -/
  upper : BitVec 15
  literal : BitVec 16
deriving DecidableEq

namespace Cell

/-- The cell that nothing was ever placed in. -/
def free : Cell := ⟨false, 0, 0⟩

/-- A used cell with the low 31 bits of a word. -/
def ofWord (word : BitVec 32) : Cell :=
  ⟨true, word.extractLsb' 16 15, word.setWidth 16⟩

/-- The contents as a number below 2 ^ 31, whether the cell is used or not. -/
def value (c : Cell) : Nat :=
  c.upper.toNat * 0x10000 + c.literal.toNat

/-- The contents with the top bit of a 32-bit word marking a free cell. -/
def raw (c : Cell) : Nat :=
  if c.used then c.value else 0x80000000 + c.value

def withLiteral (c : Cell) (literal : BitVec 16) : Cell :=
  { c with literal }

def placed (m : Memory) (v : Value) : Cell :=
  ofWord (v &&& m.wordMask)

/-- What a cell becomes when a value computed in pass 2 is stored to it: program
memory adds the value to the literal field, data memory takes the value over. -/
def patched (m : Memory) (c : Cell) (v : Value) : Cell :=
  match m with
  | .program => c.withLiteral (c.literal + v.setWidth 16)
  | .data => placed .data v

def text (c : Cell) : String :=
  if c.used then "Cell(0x" ++ Numeral.lowerHex 8 c.value ++ ")" else "Cell(free)"

theorem value_lt (c : Cell) : c.value < 0x80000000 := by
  have upper := c.upper.isLt
  have literal := c.literal.isLt
  simp only [value]
  omega

/-- A patch of program memory keeps everything but the literal field. -/
theorem patched_program (c : Cell) (v : Value) :
    (patched .program c v).used = c.used ∧ (patched .program c v).upper = c.upper ∧
      (patched .program c v).literal = c.literal + v.setWidth 16 :=
  ⟨rfl, rfl, rfl⟩

theorem patched_data (c : Cell) (v : Value) : patched .data c v = placed .data v := rfl

/-- The bit that is set in free cells. -/
def freeMark : BitVec 32 := 0x80000000

def literalMask : BitVec 32 := 0xFFFF

/-- The raw contents as the word of 32 bits that they are. All operations on cells are
masks and sums of such words. -/
def word (c : Cell) : BitVec 32 :=
  BitVec.ofBool (!c.used) ++ c.upper ++ c.literal

theorem toNat_word (c : Cell) : c.word.toNat = c.raw := by
  have upper := c.upper.isLt
  have literal := c.literal.isLt
  have mark : (BitVec.ofBool (!c.used)).toNat = if c.used then 0 else 1 := by
    cases c.used <;> rfl
  rw [word, BitVec.toNat_append, BitVec.toNat_append, ← Nat.shiftLeft_add_eq_or_of_lt literal,
    ← Nat.shiftLeft_add_eq_or_of_lt upper, Nat.shiftLeft_eq, Nat.shiftLeft_eq, mark, raw, value]
  split <;> omega

theorem toNat_unmarked (w : BitVec 32) : (w &&& ~~~freeMark).toNat = w.toNat % 0x80000000 :=
  Nat.and_two_pow_sub_one_eq_mod w.toNat 31

theorem setWidth_literal (literal : BitVec 16) : literal.setWidth 32 = 0#16 ++ literal := by
  simp [BitVec.setWidth_eq_append]

theorem and_literalMask (w : BitVec 32) : w &&& literalMask = (w.setWidth 16).setWidth 32 := by
  rw [setWidth_literal]
  exact BitVec.and_setWidth_allOnes 16 16 w

theorem replace_literal (upper old new : BitVec 16) :
    (upper ++ old) &&& ~~~literalMask ||| new.setWidth 32 = upper ++ new := by
  have field : literalMask = 0#16 ++ BitVec.allOnes 16 := rfl
  rw [setWidth_literal, field, BitVec.not_append, BitVec.and_append, BitVec.or_append, BitVec.not_zero,
    BitVec.not_allOnes, BitVec.and_allOnes, BitVec.and_zero, BitVec.or_zero, BitVec.zero_or]

theorem value_eq_unmarked (c : Cell) : c.value = (c.word &&& ~~~freeMark).toNat := by
  have bound := c.value_lt
  rw [toNat_unmarked, toNat_word, raw]
  split <;> omega

theorem literal_eq_setWidth (c : Cell) : c.literal = (c.word &&& literalMask).setWidth 16 := by
  rw [and_literalMask, BitVec.setWidth_setWidth_of_le _ (by decide), BitVec.setWidth_eq, word,
    BitVec.setWidth_append]
  simp

theorem word_ofWord (w : BitVec 32) : (ofWord w).word = w &&& ~~~freeMark := by
  apply BitVec.eq_of_toNat_eq
  rw [toNat_unmarked, toNat_word]
  simp only [raw, ofWord, value, BitVec.extractLsb'_toNat, BitVec.toNat_setWidth, Nat.shiftRight_eq_div_pow,
    if_true]
  omega

theorem word_withLiteral (c : Cell) (literal : BitVec 16) :
    (c.withLiteral literal).word = c.word &&& ~~~literalMask ||| literal.setWidth 32 :=
  (replace_literal (BitVec.ofBool (!c.used) ++ c.upper) c.literal literal).symm

/-- The sum is one of 32 bits, of which the literal field takes the lower half. -/
theorem word_patched_program (c : Cell) (v : Value) :
    (patched .program c v).word =
      c.word &&& ~~~literalMask ||| (v + c.literal.setWidth 32) &&& literalMask := by
  have sum : (v + c.literal.setWidth 32).setWidth 16 = c.literal + v.setWidth 16 := by
    rw [BitVec.setWidth_add _ _ (by decide), BitVec.setWidth_setWidth_of_le _ (by decide),
      BitVec.setWidth_eq, BitVec.add_comm]
  rw [and_literalMask (v + _), sum, patched, word_withLiteral]

theorem word_patched_data (c : Cell) (v : Value) :
    (patched .data c v).word = v &&& Memory.wordMask .data &&& ~~~freeMark :=
  word_ofWord (v &&& Memory.wordMask .data)

end Cell
end TwoPass
