import TwoPass.Listing.Format
import TwoPass.Proofs.History
import TwoPass.Proofs.Reading.Entity

/-! The contents that a hex dump gives to byte addresses. A line names the address of its
first word, and each word occupies one byte for every two of its digits. -/
namespace TwoPass.Reading.HexDump

/-- Words in a row with the byte addresses where they start. -/
def wordsFrom : Nat → List (List Char) → List (Nat × Nat)
  | _, [] => []
  | address, digits :: rest =>
    ((number? 16 digits).map fun n => (address, n)).toList ++
      wordsFrom (address + digits.length / 2) rest

def lineWords (line : String) : List (Nat × Nat) :=
  match line.toList.splitOn ' ' with
  | ('@' :: address) :: words => (number? 16 address).elim [] fun start => wordsFrom start words
  | _ => []

def words (text : String) : List (Nat × Nat) :=
  (textLines text).flatMap lineWords

/-- Program words have four bytes, data words two, from 64 KiB on. -/
def byteAddress : Memory → Nat → Nat
  | .program, a => 4 * a
  | .data, a => 0x10000 + 2 * a

def word? (m : Memory) (text : String) (a : Nat) : Option Nat :=
  (words text).lookup (byteAddress m a)

theorem byteAddress_eq (m : Memory) (a : Nat) :
    (Listing.HexDump.layout m).base + a * (Listing.HexDump.layout m).bytesPerWord = byteAddress m a := by
  cases m <;> simp only [Listing.HexDump.layout, byteAddress] <;> omega

/-- A formed cell fills the digits of its word exactly. -/
theorem hexField_word {m : Memory} {c : Cell} (formed : c.Formed m) :
    HexField (2 * (Listing.HexDump.layout m).bytesPerWord)
      (Numeral.hex (2 * (Listing.HexDump.layout m).bytesPerWord) c.value).toList := by
  have digits : 2 ^ m.cellBits true ≤ 16 ^ (2 * (Listing.HexDump.layout m).bytesPerWord) := by
    cases m <;> decide
  have wide : 0 < 2 * (Listing.HexDump.layout m).bytesPerWord := by cases m <;> decide
  exact hexField_hex wide (Nat.lt_of_lt_of_le formed.value_lt_word digits)

theorem toList_line (l : Listing.HexDump.Layout) (a : Nat) (cells : List Cell) :
    (Listing.HexDump.line l a cells).toList =
      [' '].intercalate (('@' :: (Numeral.hex 5 (l.base + a * l.bytesPerWord)).toList) ::
        cells.map fun c => (Numeral.hex (2 * l.bytesPerWord) c.value).toList) := by
  have mark := toList_spelled (s := "@") rfl
  have blank := toList_spelled (s := " ") rfl
  rw [intercalate_cons_eq_flatMap, Listing.HexDump.line, String.toList_append, String.toList_append, mark,
    String.toList_join, List.flatMap_map, List.flatMap_map]
  simp [Listing.HexDump.word, blank]

theorem wordsFrom_range' {m : Memory} {image : Image m} (formed : ∀ a, (image.cellAt a).Formed m)
    (start count : Nat) :
    wordsFrom (byteAddress m start) ((List.range' start count).map fun a =>
      (Numeral.hex (2 * (Listing.HexDump.layout m).bytesPerWord) (image.cellAt a).value).toList) =
      (List.range' start count).map fun a => (byteAddress m a, (image.cellAt a).value) := by
  induction count generalizing start with
  | zero => rfl
  | succ count ih =>
    have next : byteAddress m start + 2 * (Listing.HexDump.layout m).bytesPerWord / 2 =
        byteAddress m (start + 1) := by
      cases m <;> simp only [Listing.HexDump.layout, byteAddress] <;> omega
    rw [List.range'_succ, List.map_cons, wordsFrom, number?_hex, (hexField_word (formed start)).1, next, ih]
    rfl

theorem splitOn_line {m : Memory} (image : Image m) (start count : Nat) :
    (Listing.HexDump.line (Listing.HexDump.layout m) start (image.slice start count)).toList.splitOn ' ' =
      ('@' :: (Numeral.hex 5 (byteAddress m start)).toList) :: (List.range' start count).map fun a =>
        (Numeral.hex (2 * (Listing.HexDump.layout m).bytesPerWord) (image.cellAt a).value).toList := by
  have slice : image.slice start count = (List.range' start count).map image.cellAt := by
    rw [List.range'_eq_map_range, List.map_map]
    rfl
  have solid := not_mem_hex (c := ' ') rfl
  rw [toList_line, byteAddress_eq, List.splitOn_intercalate, slice, List.map_map]
  · rfl
  · simp [solid]
  · simp

theorem lineWords_line {m : Memory} {image : Image m} (formed : ∀ a, (image.cellAt a).Formed m)
    (start count : Nat) :
    lineWords (Listing.HexDump.line (Listing.HexDump.layout m) start (image.slice start count)) =
      (List.range' start count).map fun a => (byteAddress m a, (image.cellAt a).value) := by
  simp only [lineWords, splitOn_line, number?_hex, Option.elim_some]
  exact wordsFrom_range' formed start count

theorem words_memoryLines {m : Memory} {image : Image m} (formed : ∀ a, (image.cellAt a).Formed m)
    (whole : (Listing.HexDump.layout m).wordsPerLine ∣ image.capacity) :
    (Listing.HexDump.memoryLines image).flatMap lineWords =
      (List.range image.capacity).map fun a => (byteAddress m a, (image.cellAt a).value) := by
  simp only [Listing.HexDump.memoryLines, List.flatMap_map, lineWords_line formed]
  rw [← List.map_flatMap, flatMap_range', Nat.div_mul_cancel whole]

theorem whole_line (l : Listing.HexDump.Layout) (a : Nat) (cells : List Cell) :
    '\n' ∉ (Listing.HexDump.line l a cells).toList := by
  have digits := not_mem_hex (c := '\n') rfl
  rw [toList_line, intercalate_cons_eq_flatMap]
  simp [digits]

theorem textLines_render (images : Images) :
    textLines (Listing.Format.hexDump.render images) = Listing.HexDump.lines images := by
  have memory : ∀ {m : Memory} (image : Image m), ∀ line ∈ Listing.HexDump.memoryLines image,
      '\n' ∉ line.toList := by
    intro m image line member
    obtain ⟨i, -, rfl⟩ := List.mem_map.mp member
    exact whole_line _ _ _
  apply textLines_intercalate
  · simp [Listing.HexDump.lines]
  · simp only [Listing.HexDump.lines, List.forall_mem_append, List.forall_mem_singleton]
    exact ⟨⟨memory images.program, memory images.data⟩, not_mem_spelled rfl List.not_mem_nil⟩

theorem wordsPerLine_dvd {images : Images} (sound : images.Sound) (m : Memory) :
    (Listing.HexDump.layout m).wordsPerLine ∣ (images.image m).capacity := by
  have every : ∀ n ∈ m.sizes, (Listing.HexDump.layout m).wordsPerLine ∣ n := by cases m <;> decide
  rw [sound.capacity m]
  exact every _ (images.sizes.size m).legal

/-- A dump lists every word of both memories at its byte address. -/
theorem words_render {images : Images} (sound : images.Sound) :
    words (Listing.Format.hexDump.render images) =
      ((List.range images.program.capacity).map fun a =>
        (byteAddress .program a, (images.program.cellAt a).value)) ++
      (List.range images.data.capacity).map fun a =>
        (byteAddress .data a, (images.data.cellAt a).value) := by
  have last : lineWords "" = [] := by
    simp [lineWords, toList_spelled (s := "") rfl]
  have memory := fun m =>
    words_memoryLines (sound.formed_cellAt m) (wordsPerLine_dvd sound m)
  rw [words, textLines_render, Listing.HexDump.lines, List.flatMap_append, List.flatMap_append,
    List.flatMap_singleton, last, List.append_nil]
  congr 1
  · exact memory .program
  · exact memory .data

theorem byteAddress_inj (m : Memory) (a b : Nat) (same : byteAddress m a = byteAddress m b) : a = b := by
  cases m <;> simp only [byteAddress] at same <;> omega

theorem count_le (size : Size .program) : size.count ≤ 16384 := by
  have every : ∀ n ∈ Memory.program.sizes, n ≤ 16384 := by decide
  exact every size.count size.legal

section
variable {images : Images} (sound : images.Sound)
include sound

/-- Program words end below the addresses of data words. -/
theorem byteAddress_ne {a : Nat} (below : a < images.program.capacity) (b : Nat) :
    byteAddress .program a ≠ byteAddress .data b := by
  have capacity : images.program.capacity = images.sizes.program.count := sound.capacity .program
  have small := count_le images.sizes.program
  simp only [byteAddress]
  omega

theorem lookup_program_data (value : Nat → Nat) (a : Nat) :
    ((List.range images.program.capacity).map fun b => (byteAddress .program b, value b)).lookup
      (byteAddress .data a) = none :=
  lookup_map_eq_none (fun _ listed => byteAddress_ne sound (List.mem_range.mp listed) a) value

/-- A dump gives to every address of a memory the contents of its cell, used or not. -/
theorem word?_render (m : Memory) {a : Nat} (below : a < (images.image m).capacity) :
    word? m (Listing.Format.hexDump.render images) a = some ((images.image m).cellAt a).value := by
  rw [word?, words_render sound, List.lookup_append]
  cases m with
  | program =>
    have inside : a < images.program.capacity := below
    rw [lookup_map_range (byteAddress_inj .program), if_pos inside]
    rfl
  | data =>
    have inside : a < images.data.capacity := below
    rw [lookup_program_data sound, lookup_map_range (byteAddress_inj .data), if_pos inside]
    rfl

end

end TwoPass.Reading.HexDump
