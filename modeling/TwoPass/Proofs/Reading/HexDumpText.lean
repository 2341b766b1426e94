import TwoPass.Proofs.Reading.HexDump

/-! The form of a hex dump and what it determines. All fields have a fixed width, so the
address of a line and the width of a word in its memory give the addresses of its words;
two dumps of memories of the same sizes are equal only for equal contents. -/
namespace TwoPass.Reading.HexDump

/-- An address of five digits and words of one width, each behind a blank. -/
def LineForm (count width : Nat) (line : String) : Prop :=
  ∃ (address : List Char) (words : List (List Char)),
    line.toList = '@' :: (address ++ words.flatMap (' ' :: ·)) ∧
      HexField 5 address ∧ words.length = count ∧ ∀ word ∈ words, HexField width word

/-- The bytes that a word occupies in the memory of its address. -/
def bytesAt (address : Nat) : Nat :=
  if address < 0x10000 then 4 else 2

/-- Words in a row, at consecutive word addresses of one memory. -/
def entriesFrom (start : Nat) (words : List (List Char)) : List (Nat × Nat) :=
  words.zipIdx.filterMap fun word =>
    (number? 16 word.1).map fun n => (start + word.2 * bytesAt start, n)

def lineEntries (line : String) : List (Nat × Nat) :=
  match line.toList.splitOn ' ' with
  | ('@' :: address) :: words => (number? 16 address).elim [] fun start => entriesFrom start words
  | _ => []

def entries (text : String) : List (Nat × Nat) :=
  (textLines text).flatMap lineEntries

theorem byteAddress_lt {m : Memory} {a : Nat} (inside : a < 65536) : byteAddress m a < 16 ^ 5 := by
  cases m <;> simp only [byteAddress] <;> omega

/-- The address of a line tells the memory of its words. -/
theorem byteAddress_add {images : Images} (sound : images.Sound) (m : Memory) {a : Nat}
    (below : a < (images.image m).capacity) (i : Nat) :
    byteAddress m a + i * bytesAt (byteAddress m a) = byteAddress m (a + i) := by
  cases m with
  | program =>
    have small := count_le images.sizes.program
    have capacity : (images.image .program).capacity = images.sizes.program.count := sound.capacity .program
    have low : 4 * a < 0x10000 := by omega
    rw [byteAddress, byteAddress, bytesAt, if_pos low]
    omega
  | data =>
    have high : ¬0x10000 + 2 * a < 0x10000 := by omega
    rw [byteAddress, byteAddress, bytesAt, if_neg high]
    omega

/-- No line has words behind the end of its memory. -/
theorem lineWord_lt {m : Memory} {image : Image m} {i j : Nat}
    (listed : i ∈ List.range (image.capacity / (Listing.HexDump.layout m).wordsPerLine))
    (inside : j < (Listing.HexDump.layout m).wordsPerLine) :
    i * (Listing.HexDump.layout m).wordsPerLine + j < image.capacity := by
  calc i * (Listing.HexDump.layout m).wordsPerLine + j
      < (i + 1) * (Listing.HexDump.layout m).wordsPerLine := by rw [Nat.succ_mul]; omega
    _ ≤ image.capacity / (Listing.HexDump.layout m).wordsPerLine *
          (Listing.HexDump.layout m).wordsPerLine := Nat.mul_le_mul_right _ (List.mem_range.mp listed)
    _ ≤ image.capacity := Nat.div_mul_le_self _ _

theorem start_lt {m : Memory} {image : Image m} {i : Nat}
    (listed : i ∈ List.range (image.capacity / (Listing.HexDump.layout m).wordsPerLine)) :
    i * (Listing.HexDump.layout m).wordsPerLine < image.capacity := by
  have wide : 0 < (Listing.HexDump.layout m).wordsPerLine := by cases m <;> decide
  exact lineWord_lt listed wide

theorem zipIdx_range' (start count : Nat) :
    (List.range' start count).zipIdx = (List.range count).map fun i => (start + i, i) := by
  apply List.ext_getElem <;> simp

section
variable {images : Images} (sound : images.Sound) (m : Memory)
include sound

theorem lineForm_line {start : Nat} (below : start < (images.image m).capacity) (count : Nat) :
    LineForm count (2 * (Listing.HexDump.layout m).bytesPerWord)
      (Listing.HexDump.line (Listing.HexDump.layout m) start ((images.image m).slice start count)) := by
  have inside := Nat.lt_of_lt_of_le below (images.image m).capacity_le
  refine ⟨(Numeral.hex 5 (byteAddress m start)).toList, ((images.image m).slice start count).map fun c =>
    (Numeral.hex (2 * (Listing.HexDump.layout m).bytesPerWord) c.value).toList, ?_, ?_, ?_, ?_⟩
  · rw [toList_line, byteAddress_eq, intercalate_cons_eq_flatMap, List.cons_append]
  · exact hexField_hex (by decide) (byteAddress_lt inside)
  · rw [List.length_map, Image.length_slice]
  · intro word member
    obtain ⟨c, listed, rfl⟩ := List.mem_map.mp member
    obtain ⟨i, -, rfl⟩ := List.mem_map.mp listed
    exact hexField_word (sound.formed_cellAt m _)

theorem entriesFrom_range' {start : Nat} (below : start < (images.image m).capacity) (count : Nat) :
    entriesFrom (byteAddress m start) ((List.range' start count).map fun a =>
      (Numeral.hex (2 * (Listing.HexDump.layout m).bytesPerWord) ((images.image m).cellAt a).value).toList) =
      (List.range' start count).map fun a => (byteAddress m a, ((images.image m).cellAt a).value) := by
  rw [entriesFrom, List.zipIdx_map, zipIdx_range', List.map_map, List.filterMap_map,
    List.range'_eq_map_range, List.map_map]
  apply List.filterMap_eq_map_iff_forall_eq_some.mpr
  intro i _
  rw [Function.comp_apply, Function.comp_apply, Function.comp_apply, Prod.map_apply, number?_hex,
    Option.map_some, id, byteAddress_add sound m below]

theorem lineEntries_line {start : Nat} (below : start < (images.image m).capacity) (count : Nat) :
    lineEntries
        (Listing.HexDump.line (Listing.HexDump.layout m) start ((images.image m).slice start count)) =
      (List.range' start count).map fun a => (byteAddress m a, ((images.image m).cellAt a).value) := by
  simp only [lineEntries, splitOn_line, number?_hex, Option.elim_some]
  exact entriesFrom_range' sound m below count

theorem lineForm_memoryLines : ∀ line ∈ Listing.HexDump.memoryLines (images.image m),
    LineForm (Listing.HexDump.layout m).wordsPerLine (2 * (Listing.HexDump.layout m).bytesPerWord) line := by
  intro line member
  obtain ⟨i, listed, rfl⟩ := List.mem_map.mp member
  exact lineForm_line sound m (start_lt listed) _

theorem lineEntries_memoryLines : ∀ line ∈ Listing.HexDump.memoryLines (images.image m),
    lineEntries line = lineWords line := by
  intro line member
  obtain ⟨i, listed, rfl⟩ := List.mem_map.mp member
  rw [lineEntries_line sound m (start_lt listed), lineWords_line (sound.formed_cellAt m)]

end

/-- Both ways to address the words of a dump agree. -/
theorem entries_render {images : Images} (sound : images.Sound) :
    entries (Listing.Format.hexDump.render images) = words (Listing.Format.hexDump.render images) := by
  have last : lineEntries "" = lineWords "" := by
    simp [lineEntries, lineWords, toList_spelled (s := "") rfl]
  rw [entries, words, textLines_render]
  apply List.flatMap_congr
  simp only [Listing.HexDump.lines, List.forall_mem_append, List.forall_mem_singleton]
  exact ⟨⟨lineEntries_memoryLines sound .program, lineEntries_memoryLines sound .data⟩, last⟩

theorem filter_map_range {key : Nat → Nat} (distinct : ∀ a b, key a = key b → a = b) (value : Nat → Nat)
    {count a : Nat} (below : a < count) :
    ((List.range count).map fun b => (key b, value b)).filter (·.1 = key a) = [(key a, value a)] := by
  have same : ∀ b ∈ List.range count, decide (key b = key a) = (b == a) := by
    intro b _
    rw [Bool.eq_iff_iff, decide_eq_true_iff, beq_iff_eq]
    exact ⟨distinct b a, congrArg key⟩
  rw [List.filter_map]
  simp only [Function.comp_def]
  rw [List.filter_congr same, List.filter_beq, List.count_range, if_pos below]
  rfl

section
variable {images : Images} (sound : images.Sound)
include sound

/-- Every word of a memory is read once. -/
theorem filter_entries (m : Memory) {a : Nat} (below : a < (images.image m).capacity) :
    (entries (Listing.Format.hexDump.render images)).filter (·.1 = byteAddress m a) =
      [(byteAddress m a, ((images.image m).cellAt a).value)] := by
  rw [entries_render sound, words_render sound, List.filter_append]
  cases m with
  | program =>
    have inside : a < images.program.capacity := below
    have others : ((List.range images.data.capacity).map fun b =>
        (byteAddress .data b, (images.data.cellAt b).value)).filter (·.1 = byteAddress .program a) = [] := by
      rw [List.filter_eq_nil_iff, List.forall_mem_map]
      intro b _
      simpa using (byteAddress_ne sound inside b).symm
    rw [others, filter_map_range (byteAddress_inj .program) _ inside]
    rfl
  | data =>
    have inside : a < images.data.capacity := below
    have others : ((List.range images.program.capacity).map fun b =>
        (byteAddress .program b, (images.program.cellAt b).value)).filter (·.1 = byteAddress .data a) = [] := by
      rw [List.filter_eq_nil_iff, List.forall_mem_map]
      intro b listed
      simpa using byteAddress_ne sound (List.mem_range.mp listed) a
    rw [others, filter_map_range (byteAddress_inj .data) _ inside]
    rfl

theorem mem_entries {word : Nat × Nat} (listed : word ∈ entries (Listing.Format.hexDump.render images)) :
    ∃ m, ∃ a < (images.image m).capacity, word.1 = byteAddress m a := by
  rw [entries_render sound, words_render sound, List.mem_append] at listed
  rcases listed with program | data
  · obtain ⟨a, inside, rfl⟩ := List.mem_map.mp program
    exact ⟨.program, a, List.mem_range.mp inside, rfl⟩
  · obtain ⟨a, inside, rfl⟩ := List.mem_map.mp data
    exact ⟨.data, a, List.mem_range.mp inside, rfl⟩

end

/-- The lines of a memory show the values of its cells and nothing else of them. -/
theorem memoryLines_congr {m : Memory} {image other : Image m} (capacity : other.capacity = image.capacity)
    (same : ∀ a < image.capacity, (other.cellAt a).value = (image.cellAt a).value) :
    Listing.HexDump.memoryLines other = Listing.HexDump.memoryLines image := by
  simp only [Listing.HexDump.memoryLines, capacity]
  apply List.map_congr_left
  intro i listed
  have words : ∀ j ∈ List.range (Listing.HexDump.layout m).wordsPerLine,
      Listing.HexDump.word (Listing.HexDump.layout m)
          (other.cellAt (i * (Listing.HexDump.layout m).wordsPerLine + j)) =
        Listing.HexDump.word (Listing.HexDump.layout m)
          (image.cellAt (i * (Listing.HexDump.layout m).wordsPerLine + j)) := by
    intro j inside
    simp only [Listing.HexDump.word, same _ (lineWord_lt listed (List.mem_range.mp inside))]
  simp only [Listing.HexDump.line, Image.slice, List.map_map, Function.comp_def]
  rw [List.map_congr_left words]

/-- Dumps of equal sizes are equal only for equal contents, since they can be read back. -/
theorem render_eq_iff {images others : Images} (sound : images.Sound) (rest : others.Sound)
    (sizes : others.sizes = images.sizes) :
    Listing.Format.hexDump.render others = Listing.Format.hexDump.render images ↔
      ∀ m, ∀ a < (images.image m).capacity,
        ((others.image m).cellAt a).value = ((images.image m).cellAt a).value := by
  have capacity : ∀ m, (others.image m).capacity = (images.image m).capacity := by
    intro m
    rw [sound.capacity, rest.capacity, sizes]
  constructor
  · intro same m a below
    have there := word?_render rest m (by rwa [capacity m])
    rw [same, word?_render sound m below] at there
    exact (Option.some.inj there).symm
  · intro same
    have lines := fun m => memoryLines_congr (capacity m) (same m)
    have program : Listing.HexDump.memoryLines others.program = _ := lines .program
    have data : Listing.HexDump.memoryLines others.data = _ := lines .data
    simp only [Listing.Format.render, Listing.HexDump.lines, program, data]
    rfl

theorem render_eq_join (images : Images) :
    Listing.Format.hexDump.render images = String.join
      ((Listing.HexDump.memoryLines images.program ++ Listing.HexDump.memoryLines images.data).map
        (· ++ "\n")) := by
  have ended : ∀ lines : List String,
      "\n".intercalate (lines ++ [""]) = String.join (lines.map (· ++ "\n")) := by
    intro lines
    induction lines with
    | nil => simp
    | cons line lines ih =>
      rw [List.cons_append, String.intercalate_cons_of_ne_nil (by simp), ih, List.map_cons, String.join_cons]
  exact ended _

/-- Reading a hex dump gives back every cell of both memories and nothing else. -/
theorem hexDump_round_trip (s : Session) (reachable : s.Reachable) (images : Images)
    (resolved : s.resolve = .ok images) :
    (∃ program data : List String,
      Listing.Format.hexDump.render images = String.join ((program ++ data).map (· ++ "\n")) ∧
      program.length = images.program.capacity / 8 ∧ (∀ line ∈ program, LineForm 8 8 line) ∧
      data.length = images.data.capacity / 16 ∧ ∀ line ∈ data, LineForm 16 4 line) ∧
    (∀ m, ∀ a : Address, a.val < (images.image m).capacity →
      (entries (Listing.Format.hexDump.render images)).filter (·.1 = byteAddress m a) =
        [(byteAddress m a, ((images.image m).cell a).value)]) ∧
    (∀ word ∈ entries (Listing.Format.hexDump.render images),
      ∃ m, ∃ a < (images.image m).capacity, word.1 = byteAddress m a) ∧
    ∀ (t : Session) (others : Images), t.Reachable → t.resolve = .ok others →
      others.sizes = images.sizes →
      (Listing.Format.hexDump.render others = Listing.Format.hexDump.render images ↔
        ∀ m, ∀ a : Address, a.val < (images.image m).capacity →
          ((others.image m).cell a).value = ((images.image m).cell a).value) := by
  have sound := reachable.sound resolved
  refine ⟨⟨_, _, render_eq_join images, ?_, lineForm_memoryLines sound .program, ?_,
    lineForm_memoryLines sound .data⟩, ?_, fun word => mem_entries sound, ?_⟩
  · simp [Listing.HexDump.memoryLines, Listing.HexDump.layout]
  · simp [Listing.HexDump.memoryLines, Listing.HexDump.layout]
  · intro m a below
    rw [filter_entries sound m below, Image.cellAt_val]
  · intro t others reached finished sizes
    rw [render_eq_iff sound (reached.sound finished) sizes]
    constructor
    · intro same m a below
      simpa only [Image.cellAt_val] using same m a.val below
    · intro same m a below
      have address := Nat.lt_of_lt_of_le below (images.image m).capacity_le
      have cell := same m ⟨a, address⟩ below
      rwa [← Image.cellAt_val, ← Image.cellAt_val] at cell

/-- The only word is a data word. -/
def single (v : Value) : List Occurrence :=
  [.call (.place .data v 1)]

/-- Placing a zero does not show in a dump, placing a seven does. -/
theorem hexDump_round_trip_single :
    ∃ blank zero seven, (Session.start {}).resolve = .ok blank ∧
      ((Session.start {}).after (single 0)).resolve = .ok zero ∧
      ((Session.start {}).after (single 7)).resolve = .ok seven ∧
      Listing.Format.hexDump.render zero = Listing.Format.hexDump.render blank ∧
      Listing.Format.hexDump.render seven ≠ Listing.Format.hexDump.render blank ∧
      (entries (Listing.Format.hexDump.render seven)).filter (·.1 = 0x10000) = [(0x10000, 7)] := by
  refine ⟨_, _, _, rfl, rfl, rfl, ?_, ?_, ?_⟩
  · obtain ⟨-, -, -, same⟩ := hexDump_round_trip (Session.start {}) ⟨{}, [], rfl⟩ _ rfl
    refine (same _ _ ⟨{}, single 0, rfl⟩ rfl rfl).mpr ?_
    intro m a _
    cases m with
    | program => rfl
    | data =>
      have room : (Image.empty .data 1024).next 1 = .ok 0 := rfl
      have zero : (Cell.placed .data 0).value = Cell.free.value := rfl
      have cell := congrArg Cell.value (Image.cell_append_of_ok room 0 a)
      rw [apply_ite Cell.value, Image.cell_empty, zero, ite_self] at cell
      exact cell.trans (congrArg Cell.value (Image.cell_empty .data 1024 a)).symm
  · obtain ⟨-, -, -, same⟩ := hexDump_round_trip (Session.start {}) ⟨{}, [], rfl⟩ _ rfl
    intro equal
    have cell := (same _ _ ⟨{}, single 7, rfl⟩ rfl rfl).mp equal .data 0 (by decide)
    revert cell
    decide
  · obtain ⟨-, read, -⟩ := hexDump_round_trip _ ⟨{}, single 7, rfl⟩ _ rfl
    exact read .data 0 (by decide)

end TwoPass.Reading.HexDump
