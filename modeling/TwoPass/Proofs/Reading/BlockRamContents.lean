import TwoPass.Proofs.Reading.BlockRamText

/-! What the instances of a description hold. Reading an instance gives its 64 rows, and
reading a word from its row gives the contents of the cell at its address. -/
namespace TwoPass.Reading.BlockRam

theorem wordsPerRow_eq (m : Memory) : m.blockWords / Listing.BlockRam.rowCount = wordsPerRow m := by
  cases m <;> rfl

theorem blockWords_eq (m : Memory) : 64 * wordsPerRow m = m.blockWords := by
  cases m <;> rfl

theorem filterMap_rows {m : Memory} (image : Image m) (start : Nat) :
    (Listing.BlockRam.rows image start).filterMap row? =
      (List.range 64).map fun row =>
        (row, rowBits m (image.slice (start + row * wordsPerRow m) (wordsPerRow m))) := by
  rw [Listing.BlockRam.rows, List.filterMap_map, wordsPerRow_eq]
  apply List.filterMap_eq_map_iff_forall_eq_some.mpr
  intro row _
  simp only [Function.comp_apply]
  rw [row?_row]
  simpa [Image.slice] using (wordsPerRow_pos m).ne'

theorem filterMap_of_plain {lines : List String} (plain : ∀ line ∈ lines, Plain marks line) :
    lines.filterMap row? = [] := by
  rw [List.filterMap_eq_nil_iff]
  exact fun line member => row?_of_plain (plain line member)

/-- The lines inside an instance give its rows. -/
theorem filterMap_inner {m : Memory} (image : Image m) (number : Nat) :
    (inner image number).filterMap row? = (List.range 64).map fun row =>
      (row, rowBits m (image.slice (number * m.blockWords + row * wordsPerRow m) (wordsPerRow m))) := by
  have subset : ∀ lead ∈ marks, lead ∈ parityMark :: marks := fun lead => List.mem_cons_of_mem _
  have header : (header m).filterMap row? = [] :=
    filterMap_of_plain fun line member => (plain_header m line member).mono subset
  have connections : (connections m number).filterMap row? = [] :=
    filterMap_of_plain fun line member => (plain_connections m number line member).mono subset
  rw [inner, List.filterMap_append, List.filterMap_append, List.filterMap_append, header, connections,
    filterMap_of_plain plain_parityRows, List.nil_append, List.append_nil, List.append_nil, filterMap_rows]

theorem number?_ne_of_mem_block {m : Memory} {image : Image m} {other number : Nat}
    (different : other ≠ number) {line : String} (member : line ∈ Listing.BlockRam.block image other) :
    number? m line ≠ some number := by
  rcases mem_block member with rfl | plain
  · rw [number?_instanceLine]
    simpa using different
  · rw [number?_of_plain plain]
    simp

/-- Among the instances of a memory, the one with a given number has its rows. -/
theorem rows_between {m : Memory} (image : Image m) {blocks number : Nat} (below : number < blocks)
    {before : List String} (unnamed : ∀ line ∈ before, number? m line = none) (rest : List String) :
    (between (number? m · = some number) "   );"
      (before ++ (List.range blocks).flatMap (Listing.BlockRam.block image) ++ rest)).filterMap row? =
      (List.range 64).map fun row =>
        (row, rowBits m (image.slice (number * m.blockWords + row * wordsPerRow m) (wordsPerRow m))) := by
  obtain ⟨lower, upper, split, absent⟩ := List.eq_append_cons_of_mem (List.mem_range.mpr below)
  have opened : decide (number? m (instanceLine m number) = some number) = true :=
    decide_eq_true (number?_instanceLine m number)
  have unopened : ∀ line ∈ before ++ lower.flatMap (Listing.BlockRam.block image),
      decide (number? m line = some number) = false := by
    intro line member
    apply decide_eq_false
    rcases List.mem_append.mp member with outside | inside
    · rw [unnamed line outside]
      simp
    · obtain ⟨other, listed, inside⟩ := List.mem_flatMap.mp inside
      refine number?_ne_of_mem_block ?_ inside
      rintro rfl
      exact absent listed
  have lines : before ++ (List.range blocks).flatMap (Listing.BlockRam.block image) ++ rest =
      (before ++ lower.flatMap (Listing.BlockRam.block image)) ++ instanceLine m number ::
        (inner image number ++ "   );" :: ("" :: (upper.flatMap (Listing.BlockRam.block image) ++ rest))) := by
    rw [split, List.flatMap_append, List.flatMap_cons, block_eq]
    simp only [List.append_assoc, List.cons_append, List.nil_append]
  rw [lines, between_eq unopened opened (closing_not_mem (plain_inner image number)), filterMap_inner]

theorem plain_primitive (sizes : Sizes) :
    (∀ line ∈ Listing.Entity.sizePackage sizes ++ Listing.Entity.program Listing.Entity.primitive,
      Plain names line) ∧
    ∀ line ∈ Listing.Entity.data Listing.Entity.primitive, Plain names line := by
  have libraries : ∀ line ∈ Listing.Entity.primitive.libraries, Plain announcements line := by
    simp only [Listing.Entity.primitive, List.forall_mem_cons, List.not_mem_nil, false_implies, implies_true,
      and_true]
    exact ⟨.of rfl (by decide), .of rfl (by decide)⟩
  have initial : '\n' ∉ Listing.Entity.primitive.initial.toList := not_mem_spelled rfl List.not_mem_nil
  have subset : ∀ lead ∈ names, lead ∈ announcements := by decide
  simp only [List.forall_mem_append]
  exact ⟨⟨fun line member => (plain_sizePackage sizes line member).mono subset,
      fun line member => (plain_program libraries initial line member).mono subset⟩,
    fun line member => (plain_data libraries initial line member).mono subset⟩

/-- The instances of both memories, and plain lines around them. -/
theorem lines_eq (images : Images) :
    ∃ first second third : List String, (∀ line ∈ first ++ second ++ third, Plain names line) ∧
      Listing.BlockRam.lines images =
        first ++ (List.range images.sizes.program.blocks).flatMap (Listing.BlockRam.block images.program) ++
          (second ++ (List.range images.sizes.data.blocks).flatMap (Listing.BlockRam.block images.data) ++
            third) := by
  obtain ⟨programHead, programTail, programPlain, program⟩ :=
    architecture_eq images.sizes.program images.program
  obtain ⟨dataHead, dataTail, dataPlain, data⟩ := architecture_eq images.sizes.data images.data
  obtain ⟨before, between⟩ := plain_primitive images.sizes
  refine ⟨Listing.Entity.sizePackage images.sizes ++ Listing.Entity.program Listing.Entity.primitive ++
      programHead,
    programTail ++ Listing.Entity.data Listing.Entity.primitive ++ dataHead, dataTail, ?_, ?_⟩
  · simp only [List.forall_mem_append] at before programPlain dataPlain ⊢
    exact ⟨⟨⟨before, programPlain.1⟩, ⟨programPlain.2, between⟩, dataPlain.1⟩, dataPlain.2⟩
  · rw [Listing.BlockRam.lines, program, data]
    simp only [List.append_assoc]

theorem whole_block {m : Memory} {image : Image m} {number : Nat} {line : String}
    (member : line ∈ Listing.BlockRam.block image number) : '\n' ∉ line.toList := by
  rcases mem_block member with rfl | plain
  · have parts : '\n' ∉ (label m).toList ∧ '\n' ∉ (primitive m).toList := by
      cases m with
      | program => exact ⟨not_mem_spelled rfl (by decide), not_mem_spelled rfl (by decide)⟩
      | data => exact ⟨not_mem_spelled rfl (by decide), not_mem_spelled rfl (by decide)⟩
    exact not_mem_append (not_mem_append parts.1 (not_mem_decimal rfl number)) parts.2
  · exact plain.whole

theorem textLines_render (images : Images) :
    textLines (Listing.Format.blockRam.render images) = Listing.BlockRam.lines images := by
  obtain ⟨first, second, third, plain, eq⟩ := lines_eq images
  have blocks : ∀ {m : Memory} (image : Image m) (count : Nat),
      ∀ line ∈ (List.range count).flatMap (Listing.BlockRam.block image), '\n' ∉ line.toList := by
    intro m image count line member
    obtain ⟨number, -, inside⟩ := List.mem_flatMap.mp member
    exact whole_block inside
  apply textLines_intercalate
  · simp [Listing.BlockRam.lines, Listing.Entity.sizePackage]
  · rw [eq]
    simp only [List.forall_mem_append] at plain ⊢
    obtain ⟨⟨before, middle⟩, after⟩ := plain
    exact ⟨⟨fun line member => (before line member).whole, blocks _ _⟩,
      ⟨fun line member => (middle line member).whole, blocks _ _⟩, fun line member => (after line member).whole⟩

theorem rows_render (images : Images) (m : Memory) {number : Nat}
    (below : number < (images.sizes.size m).blocks) :
    rows m number (Listing.Format.blockRam.render images) =
      (List.range 64).map fun row => (row, rowBits m ((images.image m).slice
        (number * m.blockWords + row * wordsPerRow m) (wordsPerRow m))) := by
  obtain ⟨first, second, third, plain, eq⟩ := lines_eq images
  simp only [List.forall_mem_append] at plain
  obtain ⟨⟨before, middle⟩, -⟩ := plain
  rw [rows, textLines_render, eq]
  cases m with
  | program =>
    exact rows_between images.program below (fun line member => number?_of_plain (before line member) _) _
  | data =>
    have program : ∀ line ∈ (List.range images.sizes.program.blocks).flatMap
        (Listing.BlockRam.block images.program), number? .data line = none := by
      intro line member
      obtain ⟨other, -, inside⟩ := List.mem_flatMap.mp member
      rcases mem_block inside with rfl | plain
      · exact number?_data_program other
      · exact number?_of_plain plain .data
    rw [← List.append_assoc, ← List.append_assoc]
    refine rows_between images.data below ?_ _
    simp only [List.forall_mem_append]
    exact ⟨⟨fun line member => number?_of_plain (before line member) _, program⟩,
      fun line member => number?_of_plain (middle line member) _⟩

theorem value_mod_wordMask {m : Memory} {c : Cell} (formed : c.Formed m) :
    c.value % (m.wordMask.toNat + 1) = c.value := by
  have mask : m.wordMask.toNat + 1 = 2 ^ m.cellBits true := by cases m <;> rfl
  rw [mask, Nat.mod_eq_of_lt formed.value_lt_word]

theorem ofDigits_slice {base : Nat} {word : Cell → Nat} (fits : ∀ c, word c < base) {m : Memory}
    (image : Image m) (start : Nat) {count i : Nat} (inside : i < count) :
    Nat.ofDigits base ((image.slice start count).map word) / base ^ i % base =
      word (image.cellAt (start + i)) := by
  have bounds : ∀ v ∈ (image.slice start count).map word, v < base := by
    intro v member
    obtain ⟨c, -, rfl⟩ := List.mem_map.mp member
    exact fits c
  have positive : 0 < base := Nat.lt_of_le_of_lt (Nat.zero_le _) (fits .free)
  rw [ofDigits_digit positive bounds (by rwa [List.length_map, Image.length_slice]), List.getElem_map,
    Image.getElem_slice]

theorem rowBits_word {m : Memory} {image : Image m} (formed : ∀ a, (image.cellAt a).Formed m) (start : Nat)
    {i : Nat} (inside : i < wordsPerRow m) :
    rowBits m (image.slice start (wordsPerRow m)) / 2 ^ (wordBits m * i) % 2 ^ wordBits m =
      (image.cellAt (start + i)).value := by
  rw [rowBits, Nat.pow_mul, ofDigits_slice (fun c => word_lt m c.value) image start inside,
    value_mod_wordMask (formed _)]

/-- Every address has its place in one row of one instance. -/
theorem address_eq (m : Memory) (a : Nat) :
    a / m.blockWords * m.blockWords + a % m.blockWords / wordsPerRow m * wordsPerRow m +
      a % wordsPerRow m = a := by
  have rest : a % m.blockWords % wordsPerRow m = a % wordsPerRow m := by
    rw [← blockWords_eq m, Nat.mod_mul_left_mod]
  rw [← rest, Nat.add_assoc, Nat.div_add_mod', Nat.div_add_mod']

theorem block_lt {images : Images} (sound : images.Sound) {m : Memory} {a : Nat}
    (below : a < (images.image m).capacity) : a / m.blockWords < (images.sizes.size m).blocks := by
  rw [sound.capacity m, ← Size.blocks_mul_blockWords] at below
  exact Nat.div_lt_of_lt_mul (by rwa [Nat.mul_comm])

theorem row_lt (m : Memory) (a : Nat) : a % m.blockWords / wordsPerRow m < 64 := by
  apply Nat.div_lt_of_lt_mul
  rw [Nat.mul_comm, blockWords_eq]
  exact Nat.mod_lt a m.blockWords_pos

/-- The instances give to every address of a memory the contents of its cell, used or not. -/
theorem word?_render {images : Images} (sound : images.Sound) (m : Memory) {a : Nat}
    (below : a < (images.image m).capacity) :
    word? m (Listing.Format.blockRam.render images) a = some ((images.image m).cellAt a).value := by
  simp only [word?, blockWords_eq]
  rw [rows_render images m (block_lt sound below), lookup_map_range (fun _ _ same => same),
    if_pos (row_lt m a), Option.map_some, rowBits_word (sound.formed_cellAt m) _ (Nat.mod_lt a (wordsPerRow_pos m)),
    address_eq]

end TwoPass.Reading.BlockRam
