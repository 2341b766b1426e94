import Mathlib.Algebra.BigOperators.Group.List.Lemmas
import TwoPass.Proofs.Chunks
import TwoPass.Proofs.Reading.BlockRamInstances

/-! The rows of block RAM primitives as they are written. A memory falls into whole blocks
and a block into whole rows, so every row has 64 digits, and those of a word stand at a
place that its address determines. -/
namespace TwoPass.Reading.BlockRam

/-- The name and the digits of a row, if a line initialises one of a kind. -/
def written? (kind line : String) : Option (String × String) :=
  (("      " ++ kind).toList.isPrefixOf? line.toList).bind fun text =>
    (" => X\"".toList.isPrefixOf? (text.dropWhile (· ≠ ' '))).map fun value =>
      (kind ++ String.ofList (text.takeWhile (· ≠ ' ')), String.ofList (value.takeWhile (· ≠ '"')))

def initRow? (line : String) : Option (String × String) :=
  (written? "INIT_" line).or (written? "INITP_" line)

/-- The first lines of all instances with the rows that they are initialised by. -/
def initialised (text : String) : List (String × List (String × String)) :=
  (sections (fun line => (instance? line).map fun _ => line) "   );" (textLines text)).map fun found =>
    (found.1, found.2.filterMap initRow?)

def initRow (m : Memory) (number row : Nat) (text : String) : Option String :=
  ((initialised text).lookup (instanceLine m number)).bind fun rows =>
    rows.lookup ("INIT_" ++ Numeral.hex 2 row)

/-- Digits of a row, with their place counted from its right end. -/
def digitsAt (place width : Nat) (row : String) : List Char :=
  ((row.toList.reverse.take (place + width)).drop place).reverse

/-- Numbered rows of 64 digits, the first 64 for the contents and all others zero. -/
structure RowsForm (rows : List (String × String)) : Prop where
  names : rows.map Prod.fst =
    ((List.range 64).map fun row => "INIT_" ++ Numeral.hex 2 row) ++
      (List.range 8).map fun row => "INITP_" ++ Numeral.hex 2 row
  digits : ∀ row ∈ rows, HexField 64 row.2.toList
  parity : ∀ row ∈ rows.drop 64, row.2 = String.ofList (List.replicate 64 '0')

/-- The digits of a memory's rows, one chunk of words for every block and one chunk of a
block for every row. -/
def chunkRows {m : Memory} (image : Image m) : List (List String) :=
  (image.available.toChunks m.blockWords).map fun block =>
    (block.toChunks (block.length / 64)).map (Listing.BlockRam.rowDigits m)

/-- A memory falls into its blocks, with no words left over. -/
theorem toChunks_blocks {images : Images} (sound : images.Sound) (m : Memory) :
    (images.image m).available.toChunks m.blockWords =
      (List.range (images.sizes.size m).blocks).map fun number =>
        (images.image m).slice (number * m.blockWords) m.blockWords := by
  rw [Listing.toChunks_available m.blockWords_pos (Listing.BlockRam.blockWords_dvd sound m),
    Listing.BlockRam.capacity_div sound]

/-- A block falls into its rows. -/
theorem toChunks_block {m : Memory} (image : Image m) (start : Nat) :
    (image.slice start m.blockWords).toChunks (wordsPerRow m) =
      (List.range 64).map fun row => image.slice (start + row * wordsPerRow m) (wordsPerRow m) := by
  rw [← Listing.toChunks_slice image start 64 (wordsPerRow_pos m), blockWords_eq]

/-- No chunk of a memory is partial, nor is one of a block. -/
theorem whole_chunks {images : Images} (sound : images.Sound) (m : Memory) :
    ∀ block ∈ (images.image m).available.toChunks m.blockWords, block.length = m.blockWords ∧
      0 < block.length / 64 ∧ (block.toChunks (block.length / 64)).length = 64 ∧
        ∀ row ∈ block.toChunks (block.length / 64), row.length = block.length / 64 := by
  have perRow : m.blockWords / 64 = wordsPerRow m := wordsPerRow_eq m
  rw [toChunks_blocks sound m, List.forall_mem_map]
  intro number _
  rw [Image.length_slice, perRow, toChunks_block, List.forall_mem_map]
  exact ⟨rfl, wordsPerRow_pos m, by simp, fun row _ => Image.length_slice _ _ _⟩

/-- The digits of one row of a block. -/
def rowText {m : Memory} (image : Image m) (number row : Nat) : String :=
  Listing.BlockRam.rowDigits m
    (image.slice (number * m.blockWords + row * wordsPerRow m) (wordsPerRow m))

theorem chunkRows_eq {images : Images} (sound : images.Sound) (m : Memory) :
    chunkRows (images.image m) = (List.range (images.sizes.size m).blocks).map fun number =>
      (List.range 64).map (rowText (images.image m) number) := by
  have perRow : m.blockWords / 64 = wordsPerRow m := wordsPerRow_eq m
  rw [chunkRows, toChunks_blocks sound m, List.map_map]
  simp only [Function.comp_def, Image.length_slice, perRow, toChunks_block, List.map_map]
  rfl

theorem written?_generic (kind : String) (row : Nat) {digits : String} (plain : '"' ∉ digits.toList)
    (rest : String) :
    written? kind (Listing.BlockRam.generic kind row digits ++ rest) =
      some (kind ++ Numeral.hex 2 row, digits) := by
  have blank := not_mem_hex (c := ' ') rfl 2 row
  have arrow := toList_spelled (s := " => X\"") rfl
  have quote := toList_spelled (s := "\"") rfl
  have text : (Numeral.hex 2 row ++ (" => X\"" ++ (digits ++ ("\"" ++ rest)))).toList =
      (Numeral.hex 2 row).toList ++
        ' ' :: (['=', '>', ' ', 'X', '"'] ++ (digits.toList ++ '"' :: rest.toList)) := by
    simp only [String.toList_append, arrow, quote, List.cons_append, List.nil_append]
  rw [written?, generic_eq, String.toList_append (s := "      " ++ kind), isPrefixOf?_append,
    Option.bind_some, text, dropWhile_mark blank, takeWhile_mark blank, arrow, ← List.cons_append,
    isPrefixOf?_append, Option.map_some, takeWhile_mark plain, String.ofList_toList, String.ofList_toList]

theorem written?_eq_none (kind : String) {line : String} {lead : List Char}
    (spelled : "      " ++ kind = String.ofList lead) (other : ¬lead <+: line.toList) :
    written? kind line = none := by
  rw [written?, toList_spelled spelled, Option.bind_eq_none_iff]
  exact fun text found => absurd (prefix_of_isPrefixOf? found) other

theorem initRow?_of_plain {line : String} (plain : Plain (parityMark :: marks) line) :
    initRow? line = none := by
  have row := plain.other rowMark (by decide)
  have parity := plain.other parityMark List.mem_cons_self
  rw [initRow?, written?_eq_none "INIT_" rfl row, written?_eq_none "INITP_" rfl parity]
  rfl

/-- The rows that a block is written with. -/
def initRows {m : Memory} (image : Image m) (number : Nat) : List (String × String) :=
  ((List.range 64).map fun row => ("INIT_" ++ Numeral.hex 2 row, rowText image number row)) ++
  (List.range 8).map fun row => ("INITP_" ++ Numeral.hex 2 row, String.ofList (List.replicate 64 '0'))

theorem filterMap_initRow?_rows {m : Memory} (image : Image m) (start : Nat) :
    (Listing.BlockRam.rows image start).filterMap initRow? =
      (List.range 64).map fun row => ("INIT_" ++ Numeral.hex 2 row, Listing.BlockRam.rowDigits m
        (image.slice (start + row * wordsPerRow m) (wordsPerRow m))) := by
  rw [Listing.BlockRam.rows, List.filterMap_map, wordsPerRow_eq]
  apply List.filterMap_eq_map_iff_forall_eq_some.mpr
  intro row _
  rw [Function.comp_apply, initRow?, written?_generic "INIT_" row (not_mem_rowDigits rfl m _) ","]
  rfl

theorem filterMap_initRow?_parityRows :
    Listing.BlockRam.parityRows.filterMap initRow? =
      (List.range 8).map fun row =>
        ("INITP_" ++ Numeral.hex 2 row, String.ofList (List.replicate 64 '0')) := by
  have zeros : '"' ∉ (String.ofList (List.replicate 64 '0')).toList := not_mem_spelled rfl (by simp)
  rw [Listing.BlockRam.parityRows, List.filterMap_map]
  apply List.filterMap_eq_map_iff_forall_eq_some.mpr
  intro row listed
  have plain := plain_parityRows _ (List.mem_map_of_mem listed)
  have other := plain.other rowMark (by decide)
  rw [Function.comp_apply, initRow?, written?_eq_none "INIT_" rfl other, Option.none_or,
    written?_generic "INITP_" row zeros]

theorem filterMap_initRow?_inner {m : Memory} (image : Image m) (number : Nat) :
    (inner image number).filterMap initRow? = initRows image number := by
  have fixed : ∀ {lines : List String}, (∀ line ∈ lines, Plain (parityMark :: marks) line) →
      lines.filterMap initRow? = [] :=
    fun plain => List.filterMap_eq_nil_iff.mpr fun line member => initRow?_of_plain (plain line member)
  rw [inner, List.filterMap_append, List.filterMap_append, List.filterMap_append, fixed (plain_header m),
    fixed (plain_connections m number), List.nil_append, List.append_nil, filterMap_initRow?_rows,
    filterMap_initRow?_parityRows]
  rfl

theorem take_initRows {m : Memory} (image : Image m) (number : Nat) :
    ((initRows image number).take 64).map Prod.snd = (List.range 64).map (rowText image number) := by
  rw [initRows, List.take_left' (by simp), List.map_map]
  rfl

/-- A description initialises the blocks of both memories. -/
theorem initialised_render (images : Images) :
    initialised (Listing.Format.blockRam.render images) =
      (List.range images.sizes.program.blocks).map (fun number =>
        (instanceLine .program number, initRows images.program number)) ++
      (List.range images.sizes.data.blocks).map fun number =>
        (instanceLine .data number, initRows images.data number) := by
  have opened : ∀ m number, ((instance? (instanceLine m number)).map fun _ => instanceLine m number) =
      some (instanceLine m number) := by
    intro m number
    rw [instance?_instanceLine]
    rfl
  have unopened : ∀ line, instance? line = none → ((instance? line).map fun _ => line) = none := by
    intro line unread
    rw [unread]
    rfl
  rw [initialised, sections_render opened unopened, List.map_append, List.map_map, List.map_map]
  simp only [Function.comp_def, filterMap_initRow?_inner]

theorem instanceLine_inj {m : Memory} (i j : Nat) (same : instanceLine m i = instanceLine m j) : i = j := by
  have read := number?_instanceLine m i
  rw [same, number?_instanceLine] at read
  exact (Option.some.inj read).symm

theorem instanceLine_ne (i j : Nat) : instanceLine .program i ≠ instanceLine .data j := by
  intro same
  have unread := number?_data_program i
  rw [same, number?_instanceLine] at unread
  contradiction

theorem lookup_initialised (images : Images) (m : Memory) (number : Nat) :
    (initialised (Listing.Format.blockRam.render images)).lookup (instanceLine m number) =
      if number < (images.sizes.size m).blocks then some (initRows (images.image m) number) else none := by
  rw [initialised_render, List.lookup_append]
  cases m with
  | program =>
    rw [lookup_map_eq_none fun i _ => (instanceLine_ne number i).symm, Option.or_none,
      lookup_map_range instanceLine_inj]
    rfl
  | data =>
    rw [lookup_map_eq_none fun i _ => instanceLine_ne i number, Option.none_or,
      lookup_map_range instanceLine_inj]
    rfl

theorem isSome_lookup_initialised (images : Images) (m : Memory) (number : Nat) :
    ((initialised (Listing.Format.blockRam.render images)).lookup (instanceLine m number)).isSome ↔
      number < (images.sizes.size m).blocks := by
  rw [lookup_initialised]
  simp

theorem lookup_initRows {m : Memory} (image : Image m) (number : Nat) {row : Nat} (below : row < 64) :
    (initRows image number).lookup ("INIT_" ++ Numeral.hex 2 row) = some (rowText image number row) := by
  have distinct : ∀ i j, "INIT_" ++ Numeral.hex 2 i = "INIT_" ++ Numeral.hex 2 j → i = j := by
    intro i j same
    exact hex_inj (String.append_right_inj _ |>.mp same)
  rw [initRows, List.lookup_append, lookup_map_range distinct, if_pos below, Option.some_or]

theorem digits_mul_wordsPerRow (m : Memory) : wordsPerRow m * (Listing.BlockRam.wiring m).digits = 64 := by
  cases m <;> rfl

/-- The fields of a row, one for every word. -/
def fields (m : Memory) (cells : List Cell) : List (List Char) :=
  cells.map fun c => (Numeral.hex (Listing.BlockRam.wiring m).digits (c.value % (m.wordMask.toNat + 1))).toList

theorem hexField_fields (m : Memory) (cells : List Cell) :
    ∀ field ∈ fields m cells, HexField (Listing.BlockRam.wiring m).digits field := by
  simp only [fields, List.forall_mem_map]
  intro c _
  apply hexField_hex (digits_pos m)
  rw [two_pow_wordBits]
  exact word_lt m c.value

theorem toList_rowDigits_eq (m : Memory) (cells : List Cell) :
    (Listing.BlockRam.rowDigits m cells).toList = (fields m cells).reverse.flatten := by
  rw [toList_rowDigits, fields, ← List.map_reverse, ← List.map_reverse, List.flatMap_map, List.flatMap_def]

theorem lengths_fields (m : Memory) (cells : List Cell) :
    (fields m cells).map List.length = List.replicate cells.length (Listing.BlockRam.wiring m).digits := by
  rw [List.eq_replicate_iff, List.forall_mem_map]
  exact ⟨by simp [fields], fun field member => (hexField_fields m cells field member).1⟩

theorem hexField_rowDigits (m : Memory) {cells : List Cell} (whole : cells.length = wordsPerRow m) :
    HexField 64 (Listing.BlockRam.rowDigits m cells).toList := by
  rw [toList_rowDigits_eq]
  constructor
  · rw [List.length_flatten, List.map_reverse, List.sum_reverse, lengths_fields, List.sum_replicate_nat, whole,
      digits_mul_wordsPerRow]
  · intro c member
    obtain ⟨field, listed, inside⟩ := List.mem_flatten.mp member
    exact (hexField_fields m cells field (List.mem_reverse.mp listed)).2 c inside

/-- From the right end on, a row has the fields of its words in address order. -/
theorem digitsAt_rowDigits (m : Memory) {cells : List Cell} {i : Nat} (inside : i < cells.length) :
    digitsAt ((Listing.BlockRam.wiring m).digits * i) (Listing.BlockRam.wiring m).digits
        (Listing.BlockRam.rowDigits m cells) =
      (Numeral.hex (Listing.BlockRam.wiring m).digits (cells[i].value % (m.wordMask.toNat + 1))).toList := by
  have backwards : (Listing.BlockRam.rowDigits m cells).toList.reverse =
      ((fields m cells).map List.reverse).flatten := by
    rw [toList_rowDigits_eq, List.reverse_flatten, List.map_reverse, List.reverse_reverse]
  have lengths : ((fields m cells).map List.reverse).map List.length =
      List.replicate cells.length (Listing.BlockRam.wiring m).digits := by
    rw [← lengths_fields, List.map_map]
    simp [Function.comp_def]
  have bound : i < ((fields m cells).map List.reverse).length := by simpa [fields] using inside
  have field := List.drop_take_succ_flatten_eq_getElem _ i bound
  rw [lengths, List.take_replicate, List.take_replicate, Nat.min_eq_left inside, Nat.min_eq_left inside.le,
    List.sum_replicate_nat, List.sum_replicate_nat, Nat.succ_mul, Nat.mul_comm i, ← backwards] at field
  rw [digitsAt, field, List.getElem_map, List.reverse_reverse]
  exact List.getElem_map _

theorem initWord_render {images : Images} (sound : images.Sound) (m : Memory) {a : Nat}
    (below : a < (images.image m).capacity) :
    ((initRow m (a / m.blockWords) (a % m.blockWords / wordsPerRow m)
        (Listing.Format.blockRam.render images)).bind fun row =>
      Reading.number? 16 (digitsAt ((Listing.BlockRam.wiring m).digits * (a % wordsPerRow m))
        (Listing.BlockRam.wiring m).digits row)) = some ((images.image m).cellAt a).value := by
  have inside : ∀ start, a % wordsPerRow m < ((images.image m).slice start (wordsPerRow m)).length := by
    intro start
    rw [Image.length_slice]
    exact Nat.mod_lt a (wordsPerRow_pos m)
  rw [initRow, lookup_initialised, if_pos (block_lt sound below), Option.bind_some,
    lookup_initRows _ _ (row_lt m a), Option.bind_some, rowText, digitsAt_rowDigits m (inside _), number?_hex,
    Image.getElem_slice, address_eq, value_mod_wordMask (sound.formed_cellAt m a)]

theorem rowsForm_initRows {m : Memory} (image : Image m) (number : Nat) :
    RowsForm (initRows image number) := by
  constructor
  · rw [initRows, List.map_append, List.map_map, List.map_map]
    rfl
  · have zeros : HexField 64 (String.ofList (List.replicate 64 '0')).toList := by
      rw [String.toList_ofList]
      exact ⟨by simp, by simp; decide⟩
    simp only [initRows, List.forall_mem_append, List.forall_mem_map]
    exact ⟨fun row _ => hexField_rowDigits m (image.length_slice _ _), fun row _ => zeros⟩
  · rw [initRows, List.drop_left' (by simp), List.forall_mem_map]
    exact fun row _ => rfl

/-- Equal rows are those of equal memories. -/
theorem eq_of_initialised_eq {images others : Images} (sound : images.Sound) (rest : others.Sound)
    (same : initialised (Listing.Format.blockRam.render others) =
      initialised (Listing.Format.blockRam.render images)) (m : Memory) :
    (others.image m).capacity = (images.image m).capacity ∧
      ∀ a < (images.image m).capacity,
        ((others.image m).cellAt a).value = ((images.image m).cellAt a).value := by
  have blocks : (others.sizes.size m).blocks = (images.sizes.size m).blocks := by
    apply eq_of_forall_lt_iff
    intro number
    rw [← isSome_lookup_initialised, same, isSome_lookup_initialised]
  have capacity : (others.image m).capacity = (images.image m).capacity := by
    rw [rest.capacity m, sound.capacity m, ← Size.blocks_mul_blockWords, ← Size.blocks_mul_blockWords, blocks]
  refine ⟨capacity, ?_⟩
  intro a below
  have there := initWord_render rest m (capacity ▸ below)
  rw [initRow, same, ← initRow, initWord_render sound m below] at there
  exact (Option.some.inj there).symm

/-- The rows of the instances hold every word of both memories at its place, in whole
blocks and whole rows. -/
theorem blockRam_round_trip (s : Session) (reachable : s.Reachable) (images : Images)
    (resolved : s.resolve = .ok images) :
    (∀ m, 0 < (images.sizes.size m).blocks ∧
      ∀ block ∈ (images.image m).available.toChunks m.blockWords, block.length = m.blockWords ∧
        0 < block.length / 64 ∧ (block.toChunks (block.length / 64)).length = 64 ∧
          ∀ row ∈ block.toChunks (block.length / 64), row.length = block.length / 64) ∧
    ((initialised (Listing.Format.blockRam.render images)).map fun found =>
        (found.2.take 64).map Prod.snd) = chunkRows images.program ++ chunkRows images.data ∧
    (initialised (Listing.Format.blockRam.render images)).map Prod.fst =
      ((List.range images.sizes.program.blocks).map fun number =>
        "   MemoriaProg" ++ Numeral.decimal number ++ ": RAMB16_S36") ++
      ((List.range images.sizes.data.blocks).map fun number =>
        "   MemoriaRam" ++ Numeral.decimal number ++ ": RAMB16_S18") ∧
    (∀ found ∈ initialised (Listing.Format.blockRam.render images), RowsForm found.2) ∧
    (∀ a : Address, a.val < images.program.capacity →
      ((initRow .program (a.val / 512) (a.val % 512 / 8) (Listing.Format.blockRam.render images)).bind
        fun row => Reading.number? 16 (digitsAt (8 * (a.val % 8)) 8 row)) =
          some (images.program.cell a).value) ∧
    (∀ a : Address, a.val < images.data.capacity →
      ((initRow .data (a.val / 1024) (a.val % 1024 / 16) (Listing.Format.blockRam.render images)).bind
        fun row => Reading.number? 16 (digitsAt (4 * (a.val % 16)) 4 row)) =
          some (images.data.cell a).value) ∧
    ∀ (t : Session) (others : Images), t.Reachable → t.resolve = .ok others →
      initialised (Listing.Format.blockRam.render others) =
        initialised (Listing.Format.blockRam.render images) →
      ∀ m, (others.image m).capacity = (images.image m).capacity ∧
        ∀ a : Address, a.val < (images.image m).capacity →
          ((others.image m).cell a).value = ((images.image m).cell a).value := by
  have sound := reachable.sound resolved
  refine ⟨fun m => ⟨Size.blocks_pos _, whole_chunks sound m⟩, ?_, ?_, ?_, ?_, ?_, ?_⟩
  · have program : chunkRows images.program = _ := chunkRows_eq sound .program
    have data : chunkRows images.data = _ := chunkRows_eq sound .data
    rw [initialised_render, List.map_append, List.map_map, List.map_map, program, data]
    simp only [Function.comp_def, take_initRows]
    rfl
  · rw [initialised_render, List.map_append, List.map_map, List.map_map]
    rfl
  · rw [initialised_render, List.forall_mem_append, List.forall_mem_map, List.forall_mem_map]
    exact ⟨fun number _ => rowsForm_initRows _ _, fun number _ => rowsForm_initRows _ _⟩
  · intro a below
    rw [← Image.cellAt_val]
    exact initWord_render sound .program below
  · intro a below
    rw [← Image.cellAt_val]
    exact initWord_render sound .data below
  · intro t others reached finished same m
    obtain ⟨capacity, values⟩ := eq_of_initialised_eq sound (reached.sound finished) same m
    refine ⟨capacity, fun a below => ?_⟩
    simpa only [Image.cellAt_val] using values a.val below

/-- A program word, and a value that is stored to the second block of data memory. -/
def spread : List Occurrence :=
  [.call (.place .program 7 1), .call (.defer ⟨.literal 5, 2⟩),
    .call (.defer ⟨.store .data ⟨1500, by decide⟩, 2⟩)]

theorem blockRam_round_trip_spread :
    ∃ images, ((Session.start { data := ⟨2048, by decide⟩ }).after spread).resolve = .ok images ∧
      (initialised (Listing.Format.blockRam.render images)).map Prod.fst =
        ["   MemoriaProg0: RAMB16_S36", "   MemoriaRam0: RAMB16_S18", "   MemoriaRam1: RAMB16_S18"] ∧
      ((initRow .program 0 0 (Listing.Format.blockRam.render images)).bind fun row =>
        Reading.number? 16 (digitsAt 0 8 row)) = some 7 ∧
      ((initRow .data 1 29 (Listing.Format.blockRam.render images)).bind fun row =>
        Reading.number? 16 (digitsAt 48 4 row)) = some 5 := by
  refine ⟨_, rfl, ?_⟩
  obtain ⟨-, -, names, -, program, data, -⟩ :=
    blockRam_round_trip _ ⟨{ data := ⟨2048, by decide⟩ }, spread, rfl⟩ _ rfl
  have stored := Image.cell_store (Image.empty .data 2048) 1500 1500 5
  rw [if_pos rfl, Cell.patched_data] at stored
  exact ⟨names, program 0 (by decide), (data 1500 (by decide)).trans (congrArg (some ·.value) stored)⟩

end TwoPass.Reading.BlockRam
