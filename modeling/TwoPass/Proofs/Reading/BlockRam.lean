import Mathlib.Data.Nat.Digits.Defs
import TwoPass.Listing.Format
import TwoPass.Proofs.History
import TwoPass.Proofs.Reading.Entity

/-! The contents that block RAM primitives are initialised with. A memory is spread over
its numbered instances; an instance holds 64 rows of 256 bits, and the word at the lowest
address has the lowest bits of a row. -/
namespace TwoPass.Reading.BlockRam

def label : Memory → String
  | .program => "   MemoriaProg"
  | .data => "   MemoriaRam"

def primitive : Memory → String
  | .program => ": RAMB16_S36"
  | .data => ": RAMB16_S18"

def instanceName : Memory → Nat → String
  | .program, number => "MemoriaProg" ++ Numeral.decimal number
  | .data, number => "MemoriaRam" ++ Numeral.decimal number

/-- The number of the instance that a line begins. -/
def number? (m : Memory) (line : String) : Option Nat :=
  ((label m).toList.isPrefixOf? line.toList).bind fun text =>
    if text.dropWhile (· ≠ ':') = (primitive m).toList then
      Reading.number? 10 (text.takeWhile (· ≠ ':'))
    else none

def row? (line : String) : Option (Nat × Nat) :=
  (association? "      INIT_" line).bind fun named =>
    (Reading.number? 16 named.1).map fun row => (row, named.2)

/-- The rows of one instance with their contents. -/
def rows (m : Memory) (number : Nat) (text : String) : List (Nat × Nat) :=
  (between (number? m · = some number) "   );" (textLines text)).filterMap row?

def wordBits : Memory → Nat
  | .program => 32
  | .data => 16

def wordsPerRow (m : Memory) : Nat :=
  256 / wordBits m

def word? (m : Memory) (text : String) (a : Nat) : Option Nat :=
  let perBlock := 64 * wordsPerRow m
  let row := a % perBlock / wordsPerRow m
  ((rows m (a / perBlock) text).lookup row).map fun bits =>
    bits / 2 ^ (wordBits m * (a % wordsPerRow m)) % 2 ^ wordBits m

theorem wordsPerRow_pos (m : Memory) : 0 < wordsPerRow m := by
  cases m <;> decide

theorem digits_pos (m : Memory) : 0 < (Listing.BlockRam.wiring m).digits := by
  cases m <;> decide

theorem numberFrom?_flatMap_hex {width : Nat} (wide : 0 < width) {values : List Nat}
    (fits : ∀ v ∈ values, v < 16 ^ width) (k : Nat) :
    numberFrom? 16 k (values.flatMap fun v => (Numeral.hex width v).toList) =
      some (values.foldl (fun n v => n * 16 ^ width + v) k) := by
  induction values generalizing k with
  | nil => rfl
  | cons v values ih =>
    have read := numberFrom?_digits Char.toUpper (by decide) digit?_upper k width v
    rw [length_digits (by decide) wide (fits v List.mem_cons_self)] at read
    rw [List.flatMap_cons, numberFrom?_append, Numeral.hex, String.toList_ofList, read, Option.bind_some,
      ih fun w member => fits w (List.mem_cons_of_mem v member)]
    rfl

/-- Words that are written with the highest address first are the digits of one number. -/
theorem number?_flatMap_reverse {width : Nat} (wide : 0 < width) {values : List Nat}
    (nonempty : values ≠ []) (fits : ∀ v ∈ values, v < 16 ^ width) :
    Reading.number? 16 (values.reverse.flatMap fun v => (Numeral.hex width v).toList) =
      some (Nat.ofDigits (16 ^ width) values) := by
  have filled : (values.reverse.flatMap fun v => (Numeral.hex width v).toList) ≠ [] := by
    obtain ⟨v, values, rfl⟩ := List.exists_cons_of_ne_nil nonempty
    simp [Numeral.hex, digits_ne_nil]
  rw [Reading.number?, if_neg filled, numberFrom?_flatMap_hex wide (by simpa using fits),
    List.foldl_reverse, Nat.ofDigits_eq_foldr]
  congr 3
  funext v n
  simp [Nat.add_comm, Nat.mul_comm]

theorem ofDigits_digit {base : Nat} (positive : 0 < base) {values : List Nat}
    (fits : ∀ v ∈ values, v < base) {i : Nat} (inside : i < values.length) :
    Nat.ofDigits base values / base ^ i % base = values[i] := by
  have bound := fits values[i] (List.getElem_mem inside)
  rw [Nat.ofDigits_div_pow_eq_ofDigits_drop i positive values fits, List.drop_eq_getElem_cons inside,
    Nat.ofDigits_cons]
  simp [Nat.mod_eq_of_lt bound]

/-- The contents of a row, from the words at its addresses in order. -/
def rowBits (m : Memory) (cells : List Cell) : Nat :=
  Nat.ofDigits (2 ^ wordBits m) (cells.map fun c => c.value % (m.wordMask.toNat + 1))

theorem word_lt (m : Memory) (n : Nat) : n % (m.wordMask.toNat + 1) < 2 ^ wordBits m := by
  have bound : n % (m.wordMask.toNat + 1) < m.wordMask.toNat + 1 := Nat.mod_lt _ (Nat.succ_pos _)
  have mask : m.wordMask.toNat + 1 ≤ 2 ^ wordBits m := by cases m <;> decide
  exact Nat.lt_of_lt_of_le bound mask

theorem two_pow_wordBits (m : Memory) : 16 ^ (Listing.BlockRam.wiring m).digits = 2 ^ wordBits m := by
  cases m <;> rfl

theorem toList_rowDigits (m : Memory) (cells : List Cell) :
    (Listing.BlockRam.rowDigits m cells).toList =
      (cells.map fun c => c.value % (m.wordMask.toNat + 1)).reverse.flatMap fun v =>
        (Numeral.hex (Listing.BlockRam.wiring m).digits v).toList := by
  rw [Listing.BlockRam.rowDigits, String.toList_join, List.flatMap_map, ← List.map_reverse,
    List.flatMap_map]

theorem not_mem_rowDigits {c : Char} (other : digit? c = none) (m : Memory) (cells : List Cell) :
    c ∉ (Listing.BlockRam.rowDigits m cells).toList := by
  rw [toList_rowDigits, List.mem_flatMap]
  rintro ⟨v, -, member⟩
  exact not_mem_hex other _ _ member

theorem bitString?_row (m : Memory) {cells : List Cell} (nonempty : cells ≠ []) (rest : String) :
    bitString? ("X\"" ++ Listing.BlockRam.rowDigits m cells ++ "\"" ++ rest).toList =
      some (rowBits m cells) := by
  have letter := toList_spelled (s := "X\"") rfl
  have quote := toList_spelled (s := "\"") rfl
  have fits : ∀ v ∈ cells.map fun c => c.value % (m.wordMask.toNat + 1),
      v < 16 ^ (Listing.BlockRam.wiring m).digits := by
    intro v member
    obtain ⟨c, -, rfl⟩ := List.mem_map.mp member
    rw [two_pow_wordBits]
    exact word_lt m c.value
  have read := number?_flatMap_reverse (digits_pos m) (by simpa using nonempty) fits
  have text : ("X\"" ++ Listing.BlockRam.rowDigits m cells ++ "\"" ++ rest).toList =
      'X' :: '"' :: ((Listing.BlockRam.rowDigits m cells).toList ++ '"' :: rest.toList) := by
    simp only [String.toList_append, letter, quote, List.append_assoc, List.cons_append, List.nil_append]
  rw [text, (bitString?_quoted (not_mem_rowDigits rfl m cells) _).2,
    filter_digits (not_mem_rowDigits rfl m cells), toList_rowDigits, read, two_pow_wordBits, rowBits]

theorem row?_row (m : Memory) (row : Nat) {cells : List Cell} (nonempty : cells ≠ []) :
    row? (Listing.BlockRam.generic "INIT_" row (Listing.BlockRam.rowDigits m cells) ++ ",") =
      some (row, rowBits m cells) := by
  have lead : "      " ++ "INIT_" = "      INIT_" := rfl
  have arrow : " => " ++ "X\"" = " => X\"" := rfl
  have read := association?_eq (not_mem_hex (c := ' ') rfl 2 row)
    (show Listing.BlockRam.generic "INIT_" row (Listing.BlockRam.rowDigits m cells) ++ "," =
      "      INIT_" ++ Numeral.hex 2 row ++ " => " ++
        ("X\"" ++ Listing.BlockRam.rowDigits m cells ++ "\"" ++ ",") by
          rw [Listing.BlockRam.generic, lead, ← arrow]
          simp only [String.append_assoc])
  rw [row?, read, bitString?_row m nonempty, Option.map_some, Option.bind_some, number?_hex]
  rfl

end TwoPass.Reading.BlockRam
