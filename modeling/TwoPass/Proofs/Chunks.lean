import Mathlib.Algebra.BigOperators.Group.List.Lemmas
import TwoPass.Proofs.Reading.HexDump

/-! Listings in chunks. Lines, blocks and rows are written from the addresses that they
begin at. A memory has a whole number of each, so what they hold are the chunks of its
cells, one after the other and none of them partial. -/
namespace TwoPass.Listing

section
variable {α : Type} {size : Nat}

theorem toChunks_go_done (rest : List α) (filled : Array α) (done : Array (List α)) :
    List.toChunks.go size rest filled done = done.toList ++ List.toChunks.go size rest filled #[] := by
  induction rest generalizing filled done with
  | nil => simp [List.toChunks.go]
  | cons x rest ih =>
    rw [List.toChunks.go, List.toChunks.go]
    split
    · rw [ih _ (done.push filled.toList), ih _ (#[].push filled.toList)]
      simp
    · exact ih _ _

theorem toChunks_go_fill {first : List α} {filled : Array α} (room : filled.size + first.length ≤ size)
    (rest : List α) (done : Array (List α)) :
    List.toChunks.go size (first ++ rest) filled done =
      List.toChunks.go size rest (filled ++ first) done := by
  induction first generalizing filled with
  | nil => simp
  | cons x first ih =>
    rw [List.length_cons] at room
    have free : (filled.size == size) = false := beq_eq_false_iff_ne.mpr (by omega)
    have left : (filled.push x).size + first.length ≤ size := by
      rw [Array.size_push]
      omega
    have next := ih left
    rw [List.cons_append, List.toChunks.go, free]
    simpa using next

theorem toChunks_append {chunk : List α} (whole : chunk.length = size) (positive : 0 < size) (rest : List α) :
    (chunk ++ rest).toChunks size = chunk :: rest.toChunks size := by
  obtain ⟨n, rfl⟩ := Nat.exists_eq_succ_of_ne_zero positive.ne'
  obtain ⟨x, chunk, rfl⟩ := List.exists_cons_of_length_eq_add_one whole
  have room : (#[x] : Array α).size + chunk.length ≤ n + 1 := by simpa [Nat.add_comm] using whole.le
  have begin : (x :: (chunk ++ rest)).toChunks (n + 1) =
      List.toChunks.go (n + 1) (chunk ++ rest) #[x] #[] := rfl
  rw [List.cons_append, begin, toChunks_go_fill room]
  cases rest with
  | nil => simp [List.toChunks.go, List.toChunks]
  | cons y rest =>
    have full : ((#[x] ++ chunk).size == n + 1) = true := by simpa [Nat.add_comm] using whole
    rw [List.toChunks.go, full, if_pos rfl, toChunks_go_done]
    simp [List.toChunks]

/-- Chunks of one length are found again in what they make up. -/
theorem toChunks_flatten {chunks : List (List α)} (even : ∀ chunk ∈ chunks, chunk.length = size)
    (positive : 0 < size) : chunks.flatten.toChunks size = chunks := by
  induction chunks with
  | nil => rfl
  | cons chunk chunks ih =>
    rw [List.forall_mem_cons] at even
    rw [List.flatten_cons, toChunks_append even.1 positive, ih even.2]

end

/-- A slice of many parts is made of slices of one part. -/
theorem flatten_slices {m : Memory} (image : Image m) (start count size : Nat) :
    ((List.range count).map fun i => image.slice (start + i * size) size).flatten =
      image.slice start (count * size) := by
  have parts : ∀ i, image.slice (start + i * size) size =
      (List.range' (i * size) size).map fun a => image.cellAt (start + a) := by
    intro i
    rw [Image.slice, List.range'_eq_map_range, List.map_map]
    simp [Function.comp_def, Nat.add_assoc]
  simp only [parts]
  rw [← List.flatMap_def, ← List.map_flatMap, Reading.flatMap_range', Image.slice]

theorem toChunks_slice {m : Memory} (image : Image m) (start count : Nat) {size : Nat} (positive : 0 < size) :
    (image.slice start (count * size)).toChunks size =
      (List.range count).map fun i => image.slice (start + i * size) size := by
  rw [← flatten_slices, toChunks_flatten _ positive]
  rw [List.forall_mem_map]
  exact fun i _ => image.length_slice _ size

theorem toChunks_available {m : Memory} {image : Image m} {size : Nat} (positive : 0 < size)
    (whole : size ∣ image.capacity) :
    image.available.toChunks size =
      (List.range (image.capacity / size)).map fun i => image.slice (i * size) size := by
  have chunks := toChunks_slice image 0 (image.capacity / size) positive
  rw [Nat.div_mul_cancel whole] at chunks
  simpa only [Image.available, Nat.zero_add] using chunks

theorem mapIdx_map_range {α β : Type} (f : Nat → α) (g : Nat → α → β) (count : Nat) :
    ((List.range count).map f).mapIdx g = (List.range count).map fun i => g i (f i) := by
  apply List.ext_getElem
  · simp
  · intro i _ _
    simp

namespace HexDump

/-- Every line shows a chunk of the available cells, and no cell is left over. -/
theorem memoryLines_eq_chunks {images : Images} (sound : images.Sound) (m : Memory) :
    memoryLines (images.image m) =
      ((images.image m).available.toChunks (layout m).wordsPerLine).mapIdx fun i words =>
        line (layout m) (i * (layout m).wordsPerLine) words := by
  have positive : 0 < (layout m).wordsPerLine := by cases m <;> decide
  rw [toChunks_available positive (Reading.HexDump.wordsPerLine_dvd sound m), mapIdx_map_range]
  rfl

end HexDump

namespace BlockRam

theorem blockWords_dvd {images : Images} (sound : images.Sound) (m : Memory) :
    m.blockWords ∣ (images.image m).capacity := by
  rw [sound.capacity m, ← Size.blocks_mul_blockWords]
  exact Nat.dvd_mul_left _ _

theorem capacity_div {images : Images} (sound : images.Sound) (m : Memory) :
    (images.image m).capacity / m.blockWords = (images.sizes.size m).blocks := by
  rw [sound.capacity m]
  rfl

/-- The rows of a block, one chunk of its cells for each. -/
def chunkedRows (m : Memory) (cells : List Cell) : List String :=
  (cells.toChunks (cells.length / rowCount)).mapIdx fun row words =>
    generic "INIT_" row (rowDigits m words) ++ ","

theorem rows_eq_chunks {m : Memory} (image : Image m) (start : Nat) :
    rows image start = chunkedRows m (image.slice start m.blockWords) := by
  have positive : 0 < m.blockWords / rowCount := by cases m <;> decide
  have whole : rowCount * (m.blockWords / rowCount) = m.blockWords := by cases m <;> decide
  have chunks := toChunks_slice image start rowCount positive
  rw [whole] at chunks
  rw [chunkedRows, Image.length_slice, chunks, mapIdx_map_range]
  rfl

/-- Every instance holds a chunk of the available cells, and no cell is left over. -/
theorem blocks_eq_chunks {images : Images} (sound : images.Sound) (m : Memory) :
    (List.range (images.sizes.size m).blocks).map (block (images.image m)) =
      ((images.image m).available.toChunks m.blockWords).mapIdx fun number cells =>
        primitiveInstance m number (chunkedRows m cells) := by
  rw [toChunks_available m.blockWords_pos (blockWords_dvd sound m), capacity_div sound, mapIdx_map_range]
  apply List.map_congr_left
  intro number _
  rw [block, rows_eq_chunks]

end BlockRam

end TwoPass.Listing
