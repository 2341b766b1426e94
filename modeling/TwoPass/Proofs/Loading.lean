import TwoPass.Proofs.Reading.BlockRamInstances
import TwoPass.Proofs.Reading.MemoryMap

/-! What a bitstream tool loads into the block RAMs. The bus blocks of an address space
have equal parts of its bytes, one after the other, and the words for them come from a hex
dump. So every instance is loaded with the words that a description gives to it. -/
namespace TwoPass.Reading.MemoryMap

namespace Lane

def width (lane : Lane) : Nat :=
  lane.high + 1 - lane.low

/-- The bits of a word that the instance gets. -/
def bits (lane : Lane) (word : Nat) : Nat :=
  word / 2 ^ lane.low % 2 ^ lane.width

end Lane

namespace Space

/-- The bytes in a word; all blocks of a space have a bus of the same width. -/
def wordBytes (space : Space) : Nat :=
  ((space.blocks.headD []).map Lane.width).sum / 8

/-- The bytes in the part of one block. -/
def blockBytes (space : Space) : Nat :=
  (space.last + 1 - space.first) / space.blocks.length

/-- A word at an address lies inside the space. -/
def holds (space : Space) (address : Nat) : Bool :=
  space.first ≤ address ∧ address + space.wordBytes ≤ space.last + 1

/-- A byte is one of those that a word of the space has. -/
def covers (space : Space) (address byte : Nat) : Bool :=
  space.holds address ∧ address ≤ byte ∧ byte < address + space.wordBytes

/-- The instances of a space with their words, as far as a dump has them. -/
def load (space : Space) (dump : List (Nat × Nat)) : List (String × List (Option Nat)) :=
  (space.blocks.mapIdx fun i lanes => lanes.map fun lane =>
    (lane.name, (List.range (space.blockBytes / space.wordBytes)).map fun k =>
      (dump.lookup (space.first + i * space.blockBytes + k * space.wordBytes)).map lane.bits)).flatten

theorem covers_eq_false {space : Space} {byte : Nat} (outside : byte < space.first ∨ space.last < byte)
    (address : Nat) : space.covers address byte = false := by
  rw [covers, decide_eq_false_iff_not]
  simp only [holds, decide_eq_true_eq]
  omega

end Space

theorem byteAddress_add (m : Memory) (a : Nat) :
    HexDump.byteAddress m a = HexDump.byteAddress m 0 + a * (BlockRam.wordBits m / 8) := by
  cases m <;> simp only [HexDump.byteAddress, BlockRam.wordBits] <;> omega

section
variable {m : Memory} (size : Size m)

theorem width_lane (number : Nat) : (lane m number).width = BlockRam.wordBits m := by
  cases m <;> rfl

theorem wordBytes_spaceOf : (spaceOf size).wordBytes = BlockRam.wordBits m / 8 := by
  obtain ⟨n, eq⟩ := Nat.exists_eq_succ_of_ne_zero size.blocks_pos.ne'
  simp [Space.wordBytes, spaceOf, eq, List.range_succ_eq_map, width_lane]

theorem last_spaceOf : (spaceOf size).last + 1 = HexDump.byteAddress m size.count := by
  have positive : 0 < size.count := by
    rw [← size.blocks_mul_blockWords]
    exact Nat.mul_pos size.blocks_pos m.blockWords_pos
  have bytes : 0 < HexDump.byteAddress m size.count := by
    cases m <;> simp only [HexDump.byteAddress] <;> omega
  exact Nat.sub_add_cancel bytes

theorem blockBytes_spaceOf : (spaceOf size).blockBytes = m.blockWords * (BlockRam.wordBits m / 8) := by
  have bytes : (spaceOf size).last + 1 - (spaceOf size).first =
      size.blocks * (m.blockWords * (BlockRam.wordBits m / 8)) := by
    rw [last_spaceOf, byteAddress_add m size.count, ← size.blocks_mul_blockWords, Nat.mul_assoc]
    exact Nat.add_sub_cancel_left _ _
  have length : (spaceOf size).blocks.length = size.blocks := by simp [spaceOf]
  rw [Space.blockBytes, bytes, length, Nat.mul_div_cancel_left _ size.blocks_pos]

/-- The words of a block follow one another, and those of the next block follow them. -/
theorem address_spaceOf (number k : Nat) :
    (spaceOf size).first + number * (spaceOf size).blockBytes + k * (spaceOf size).wordBytes =
      HexDump.byteAddress m (number * m.blockWords + k) := by
  rw [blockBytes_spaceOf, wordBytes_spaceOf, byteAddress_add m (_ + k), spaceOf]
  ring

theorem bits_lane {c : Cell} (formed : c.Formed m) (number : Nat) : (lane m number).bits c.value = c.value := by
  have fits := BlockRam.word_lt m c.value
  rw [BlockRam.value_mod_wordMask formed] at fits
  rw [Lane.bits, width_lane, lane, Nat.pow_zero, Nat.div_one, Nat.mod_eq_of_lt fits]

section
variable {image : Image m} (formed : ∀ a, (image.cellAt a).Formed m) {dump : List (Nat × Nat)}
variable (dumped : ∀ a < size.count, dump.lookup (HexDump.byteAddress m a) = some (image.cellAt a).value)
include formed dumped

theorem words_block {number : Nat} (below : number < size.blocks) :
    ((List.range m.blockWords).map fun k => (dump.lookup ((spaceOf size).first +
      number * (spaceOf size).blockBytes + k * (spaceOf size).wordBytes)).map (lane m number).bits) =
      (image.slice (number * m.blockWords) m.blockWords).map fun c => some c.value := by
  rw [Image.slice, List.map_map]
  apply List.map_congr_left
  intro k inside
  have listed : number * m.blockWords + k < size.count := by
    have whole := Nat.mul_le_mul_right m.blockWords (Nat.succ_le_of_lt below)
    rw [size.blocks_mul_blockWords, Nat.succ_mul] at whole
    have last := List.mem_range.mp inside
    omega
  rw [address_spaceOf, dumped _ listed, Option.map_some, bits_lane (formed _)]
  rfl

/-- The blocks of a memory are loaded with the words of their addresses. -/
theorem load_spaceOf : (spaceOf size).load dump = (List.range size.blocks).map (BlockRam.named image) := by
  have words : (spaceOf size).blockBytes / (spaceOf size).wordBytes = m.blockWords := by
    have bytes : 0 < BlockRam.wordBits m / 8 := by cases m <;> decide
    rw [blockBytes_spaceOf, wordBytes_spaceOf, Nat.mul_div_cancel _ bytes]
  have parts : ((spaceOf size).blocks.mapIdx fun i lanes => lanes.map fun lane =>
      (lane.name, (List.range m.blockWords).map fun k => (dump.lookup ((spaceOf size).first +
        i * (spaceOf size).blockBytes + k * (spaceOf size).wordBytes)).map lane.bits)) =
      (List.range size.blocks).map fun number => [BlockRam.named image number] := by
    apply List.ext_getElem
    · simp [spaceOf]
    · intro number inside bound
      have below : number < size.blocks := by simpa using bound
      have listed : number < (spaceOf size).blocks.length := by simpa using inside
      have lanes : (spaceOf size).blocks[number] = [lane m number] := by simp [spaceOf]
      rw [List.getElem_mapIdx, lanes, List.map_singleton, words_block size formed dumped below,
        List.getElem_map, List.getElem_range]
      rfl
  rw [Space.load, words, parts, ← List.flatMap_def, ← List.map_eq_flatMap]

end

theorem holds_spaceOf {a : Nat} (below : a < size.count) :
    (spaceOf size).holds (HexDump.byteAddress m a) = true := by
  rw [Space.holds, decide_eq_true_eq, last_spaceOf, wordBytes_spaceOf, spaceOf]
  cases m <;> simp only [HexDump.byteAddress, BlockRam.wordBits] <;> omega

/-- Every byte of a memory belongs to one of its words. -/
theorem countP_covers {byte : Nat} (above : (spaceOf size).first ≤ byte) (below : byte ≤ (spaceOf size).last) :
    (List.range size.count).countP (fun a => (spaceOf size).covers (HexDump.byteAddress m a) byte) = 1 := by
  have ends := last_spaceOf size
  have offset : ∃ k < size.count, ∀ a, (spaceOf size).covers (HexDump.byteAddress m a) byte = (a == k) := by
    -- All words have the same width, so a division finds the one with the byte.
    refine ⟨(byte - (spaceOf size).first) / (BlockRam.wordBits m / 8), ?_, fun a => ?_⟩
    · cases m <;> simp only [spaceOf, HexDump.byteAddress, BlockRam.wordBits] at * <;> omega
    · rw [Bool.eq_iff_iff, beq_iff_eq, Space.covers, Space.holds, wordBytes_spaceOf, ends]
      simp only [decide_eq_true_eq]
      cases m <;> simp only [spaceOf, HexDump.byteAddress, BlockRam.wordBits] at * <;> omega
  obtain ⟨k, listed, covered⟩ := offset
  simp only [covered]
  exact List.count_eq_one_of_mem List.nodup_range (List.mem_range.mpr listed)

end

/-- Program memory ends where data memory begins, or before. -/
theorem last_lt_first (program : Size .program) (data : Size .data) :
    (spaceOf program).last < (spaceOf data).first := by
  have small := HexDump.count_le program
  have last := last_spaceOf program
  simp only [HexDump.byteAddress] at last
  simp only [spaceOf, HexDump.byteAddress] at last ⊢
  omega

theorem holds_program_data (size : Size .program) (a : Nat) :
    (spaceOf size).holds (HexDump.byteAddress .data a) = false := by
  have small := HexDump.count_le size
  have last := last_spaceOf size
  rw [Space.holds, decide_eq_false_iff_not, last, wordBytes_spaceOf]
  simp only [HexDump.byteAddress, BlockRam.wordBits]
  omega

theorem holds_data_program (size : Size .data) {a : Nat} (small : a < 16384) :
    (spaceOf size).holds (HexDump.byteAddress .program a) = false := by
  rw [Space.holds, decide_eq_false_iff_not]
  simp only [spaceOf, HexDump.byteAddress]
  omega

section
variable {images : Images} (sound : images.Sound)
include sound

theorem words_render :
    HexDump.words (Listing.Format.hexDump.render images) =
      ((List.range images.sizes.program.count).map fun a =>
        (HexDump.byteAddress .program a, (images.program.cellAt a).value)) ++
      (List.range images.sizes.data.count).map fun a =>
        (HexDump.byteAddress .data a, (images.data.cellAt a).value) := by
  have program : images.program.capacity = images.sizes.program.count := sound.capacity .program
  have data : images.data.capacity = images.sizes.data.count := sound.capacity .data
  rw [HexDump.words_render sound, program, data]

/-- Every word of a dump lies in the address space of its memory only. -/
theorem countP_holds : ∀ word ∈ HexDump.words (Listing.Format.hexDump.render images),
    (spaces (Listing.Format.memoryMap.render images)).countP (·.holds word.1) = 1 := by
  rw [words_render sound, spaces_render]
  simp only [List.forall_mem_append, List.forall_mem_map, List.mem_range, List.countP_cons, List.countP_nil]
  constructor
  · intro a below
    have small := Nat.lt_of_lt_of_le below (HexDump.count_le _)
    simp [holds_spaceOf _ below, holds_data_program _ small]
  · intro a below
    simp [holds_spaceOf _ below, holds_program_data]

/-- Every byte of both address spaces belongs to one word of a dump. -/
theorem countP_covers_words : ∀ space ∈ spaces (Listing.Format.memoryMap.render images), ∀ byte,
    space.first ≤ byte → byte ≤ space.last →
      (HexDump.words (Listing.Format.hexDump.render images)).countP (fun word =>
        (spaces (Listing.Format.memoryMap.render images)).any (·.covers word.1 byte)) = 1 := by
  have apart := last_lt_first images.sizes.program images.sizes.data
  rw [words_render sound, spaces_render]
  simp only [List.forall_mem_cons, List.not_mem_nil, false_implies, implies_true, and_true, List.any_cons,
    List.any_nil, Bool.or_false, List.countP_append, List.countP_map, Function.comp_def]
  constructor
  · intro byte above below
    have outside : ∀ a ∈ List.range images.sizes.data.count,
        (spaceOf images.sizes.program).covers (HexDump.byteAddress .data a) byte ≠ true := by
      intro a _
      simp [Space.covers, holds_program_data]
    simp only [Space.covers_eq_false (.inl (Nat.lt_of_le_of_lt below apart)), Bool.or_false,
      countP_covers _ above below, List.countP_eq_zero.mpr outside]
  · intro byte above below
    have outside : ∀ a ∈ List.range images.sizes.program.count,
        (spaceOf images.sizes.data).covers (HexDump.byteAddress .program a) byte ≠ true := by
      intro a listed
      have small := Nat.lt_of_lt_of_le (List.mem_range.mp listed) (HexDump.count_le _)
      simp [Space.covers, holds_data_program _ small]
    simp only [Space.covers_eq_false (.inr (Nat.lt_of_lt_of_le apart above)), Bool.false_or,
      countP_covers _ above below, List.countP_eq_zero.mpr outside]

/-- Words go where a description has them. -/
theorem load_render :
    (spaces (Listing.Format.memoryMap.render images)).flatMap
        (·.load (HexDump.words (Listing.Format.hexDump.render images))) =
      BlockRam.instances (Listing.Format.blockRam.render images) := by
  have dumped : ∀ m, ∀ a < (images.sizes.size m).count,
      (HexDump.words (Listing.Format.hexDump.render images)).lookup (HexDump.byteAddress m a) =
        some ((images.image m).cellAt a).value := by
    intro m a below
    exact HexDump.word?_render sound m (by rwa [sound.capacity m])
  rw [spaces_render, BlockRam.instances_render sound]
  simp only [List.flatMap_cons, List.flatMap_nil, List.append_nil]
  congr 1
  · exact load_spaceOf _ (sound.formed_cellAt .program) (dumped .program)
  · exact load_spaceOf _ (sound.formed_cellAt .data) (dumped .data)

end

/-- Hex dump and map load the block RAMs with what they are initialised with in a
description. Every word of the dump lies in one of two address spaces, which have no byte
in common and every byte of which belongs to one word; and the instances of both texts are
the same, each with the same words in the same order. -/
theorem load_eq_instances (s : Session) (reachable : s.Reachable) (images : Images)
    (resolved : s.resolve = .ok images) :
    let dump := HexDump.words (Listing.Format.hexDump.render images)
    let spaces := spaces (Listing.Format.memoryMap.render images)
    let instances := BlockRam.instances (Listing.Format.blockRam.render images)
    (∀ word ∈ dump, spaces.countP (·.holds word.1) = 1) ∧
    (∀ space ∈ spaces, ∀ byte, space.first ≤ byte → byte ≤ space.last →
      dump.countP (fun word => spaces.any (·.covers word.1 byte)) = 1) ∧
    (spaces.Pairwise fun x y => x.last < y.first) ∧
    spaces.map (fun space => (space.first, space.last + 1, space.wordBytes)) =
      [(0, 4 * images.sizes.program.count, 4), (0x10000, 0x10000 + 2 * images.sizes.data.count, 2)] ∧
    spaces.flatMap (·.load dump) = instances ∧
    (instances.map Prod.fst).Nodup ∧
    instances = (List.range images.sizes.program.blocks).map (BlockRam.named images.program) ++
      (List.range images.sizes.data.blocks).map (BlockRam.named images.data) := by
  have sound := reachable.sound resolved
  refine ⟨countP_holds sound, countP_covers_words sound, ?_, ?_, load_render sound, ?_,
    BlockRam.instances_render sound⟩
  · rw [spaces_render]
    simpa using last_lt_first _ _
  · rw [spaces_render, List.map_cons, List.map_singleton, last_spaceOf, last_spaceOf, wordBytes_spaceOf,
      wordBytes_spaceOf]
    rfl
  · rw [BlockRam.instances_render sound]
    exact BlockRam.nodup_names images

/-- A literal is stored behind the first block of program memory. -/
def secondBlock : List Occurrence :=
  [.call (.defer ⟨.literal 5, 1⟩), .call (.defer ⟨.store .program ⟨700, by decide⟩, 1⟩)]

theorem load_eq_instances_secondBlock :
    ∃ images, ((Session.start ⟨⟨1024, by decide⟩, ⟨2048, by decide⟩⟩).after secondBlock).resolve = .ok images ∧
      let loaded := (spaces (Listing.Format.memoryMap.render images)).flatMap
        (·.load (HexDump.words (Listing.Format.hexDump.render images)))
      loaded = BlockRam.instances (Listing.Format.blockRam.render images) ∧
      loaded.map Prod.fst = ["MemoriaProg0", "MemoriaProg1", "MemoriaRam0", "MemoriaRam1"] ∧
      (loaded[1]?.bind fun block => block.2[188]?) = some (some 5) := by
  refine ⟨_, rfl, ?_⟩
  obtain ⟨-, -, -, -, loaded, -, instances⟩ := load_eq_instances _ ⟨_, secondBlock, rfl⟩ _ rfl
  refine ⟨loaded, ?_, ?_⟩
  · rw [loaded, instances]
    rfl
  · rw [loaded, instances]
    decide +kernel

end TwoPass.Reading.MemoryMap
