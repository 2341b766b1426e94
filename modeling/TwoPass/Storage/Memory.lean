/-! The two memories of the processor. Program memory holds instructions of 26
bits, ten opcode bits above a 16-bit literal; data memory holds 16-bit words. Both
are built from block RAMs, so each has a fixed list of sizes. -/
namespace TwoPass

/-- A 32-bit value of an expression, signed when read by `BitVec.toInt`. -/
abbrev Value := BitVec 32

/-- Every address names one of the 65536 cells of a memory. -/
abbrev Address := Fin 65536

/-- A line of the source text, as the front end counts them. -/
abbrev Line := Nat

inductive Memory where
  | program
  | data
deriving DecidableEq, Repr

namespace Memory

def name : Memory → String
  | .program => "program memory"
  | .data => "data memory"

/-- What the cells of a memory hold, in the plural. -/
def unit : Memory → String
  | .program => "instructions"
  | .data => "words"

/-- The bits of a value that a cell of this memory keeps. -/
def wordMask : Memory → BitVec 32
  | .program => 0x03FFFFFF
  | .data => 0xFFFF

def blockWords : Memory → Nat
  | .program => 512
  | .data => 1024

/-- The numbers of words a memory can be built with, smallest first. -/
def sizes : Memory → List Nat
  | .program => [512, 1024, 2048, 4096, 8192, 16384]
  | .data => [1024, 2048, 4096, 8192, 16384, 32768]

theorem blockWords_pos (m : Memory) : 0 < m.blockWords := by
  cases m <;> decide

end Memory
end TwoPass
