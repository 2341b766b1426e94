import TwoPass.Numeral
import TwoPass.Storage.Memory

/-! The size of a memory is one of its legal numbers of words. It fixes the width
of the address bus and the number of block RAMs. -/
namespace TwoPass

structure Size (m : Memory) where
  count : Nat
  legal : count ∈ m.sizes := by decide
deriving DecidableEq

namespace Size

def ofCount? (m : Memory) (count : Nat) : Option (Size m) :=
  if legal : count ∈ m.sizes then some ⟨count, legal⟩ else none

def addressBits {m : Memory} (s : Size m) : Nat :=
  s.count.log2

def blocks {m : Memory} (s : Size m) : Nat :=
  s.count / m.blockWords

def text {m : Memory} (s : Size m) : String :=
  Numeral.decimal s.count ++ " " ++ m.unit

theorem shiftLeft_addressBits {m : Memory} (s : Size m) : 1 <<< s.addressBits = s.count := by
  have every : ∀ n ∈ m.sizes, 1 <<< n.log2 = n := by cases m <;> decide
  exact every s.count s.legal

theorem count_le {m : Memory} (s : Size m) : s.count ≤ 65536 := by
  have every : ∀ n ∈ m.sizes, n ≤ 65536 := by cases m <;> decide
  exact every s.count s.legal

theorem blocks_pos {m : Memory} (s : Size m) : 0 < s.blocks := by
  have every : ∀ n ∈ m.sizes, 0 < n / m.blockWords := by cases m <;> decide
  exact every s.count s.legal

/-- Blocks leave no word over. -/
theorem blocks_mul_blockWords {m : Memory} (s : Size m) : s.blocks * m.blockWords = s.count := by
  have every : ∀ n ∈ m.sizes, n / m.blockWords * m.blockWords = n := by cases m <;> decide
  exact every s.count s.legal

end Size

/-- The sizes of both memories; the smallest ones unless chosen otherwise. -/
structure Sizes where
  program : Size .program := ⟨512, by decide⟩
  data : Size .data := ⟨1024, by decide⟩
deriving DecidableEq

end TwoPass
