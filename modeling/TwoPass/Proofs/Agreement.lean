import TwoPass.Proofs.Reading.BlockRamContents
import TwoPass.Proofs.Reading.HexDump
import TwoPass.Proofs.Reading.VhdlText

/-! The three formats with memory contents compared. They give every address the same
word, except where program memory was patched without a word being placed: such a cell
stays free, so that only behavioural VHDL leaves it out. -/
namespace TwoPass.Reading

/-- The word that a format gives to an address of a memory, read from its text. -/
def word? (format : Listing.Format) (images : Images) (m : Memory) (a : Nat) : Option Nat :=
  match format with
  | .vhdl => Vhdl.word? m (format.render images) a
  | .blockRam => BlockRam.word? m (format.render images) a
  | .hexDump => HexDump.word? m (format.render images) a
  | .memoryMap => none

theorem value_of_free_data {c : Cell} (formed : c.Formed .data) (free : c.used = false) : c.value = 0 := by
  rw [Cell.Formed, free, Memory.cellBits] at formed
  omega

/-- All that a free cell of program memory can hold is a literal. -/
theorem value_of_free_program {c : Cell} (formed : c.Formed .program) (free : c.used = false) :
    c.value = 0 ↔ c.literal = 0 := by
  rw [Cell.Formed, free, Memory.cellBits] at formed
  have literal := c.value_mod
  rw [Nat.mod_eq_of_lt formed] at literal
  rw [literal, ← BitVec.toNat_inj]
  rfl

section
variable {images : Images} (sound : images.Sound)
include sound

theorem vhdl_eq_hexDump_iff (m : Memory) {a : Nat} (below : a < (images.image m).capacity) :
    word? .vhdl images m a = word? .hexDump images m a ↔
      (((images.image m).cellAt a).used = false → ((images.image m).cellAt a).value = 0) := by
  simp only [word?]
  rw [Vhdl.word?_render sound m below, HexDump.word?_render sound m below, Option.some.injEq]
  generalize (images.image m).cellAt a = c
  cases used : c.used with
  | true => simp
  | false => simp [eq_comm]

end

/-- Block RAMs and hex dump always agree, and behavioural VHDL agrees with them on data
memory; on program memory it does unless a literal was stored to a free cell. -/
theorem formats_agree (s : Session) (reachable : s.Reachable) (images : Images)
    (resolved : s.resolve = .ok images) :
    (∀ m, ∀ a < (images.image m).capacity,
      (word? .vhdl images m a).isSome ∧ (word? .hexDump images m a).isSome ∧
        word? .blockRam images m a = word? .hexDump images m a) ∧
    (∀ a < images.data.capacity, word? .vhdl images .data a = word? .hexDump images .data a) ∧
    ((∀ a < images.program.capacity,
        word? .vhdl images .program a = word? .hexDump images .program a) ↔
      ∀ a : Address, a.val < images.program.capacity →
        (images.program.cell a).used = false → (images.program.cell a).literal = 0) := by
  have sound := reachable.sound resolved
  refine ⟨?_, ?_, ?_⟩
  · intro m a below
    simp only [word?]
    rw [Vhdl.word?_render sound m below, BlockRam.word?_render sound m below,
      HexDump.word?_render sound m below]
    exact ⟨rfl, rfl, rfl⟩
  · intro a below
    exact (vhdl_eq_hexDump_iff sound .data below).mpr (value_of_free_data (sound.formed_cellAt .data a))
  · constructor
    · intro agree a below free
      have zero := (vhdl_eq_hexDump_iff sound .program below).mp (agree a.val below)
      rw [← Image.cellAt_val] at free ⊢
      exact (value_of_free_program (sound.formed_cellAt .program a.val) free).mp (zero free)
    · intro zero a below
      have address : a < 65536 := Nat.lt_of_lt_of_le below images.program.capacity_le
      have cell := zero ⟨a, address⟩ below
      rw [← Image.cellAt_val] at cell
      refine (vhdl_eq_hexDump_iff sound .program below).mpr fun free => ?_
      exact (value_of_free_program (sound.formed_cellAt .program a) free).mpr (cell free)

/-- A literal is stored to a program cell that no word was placed in. -/
def unplaced : List Occurrence :=
  [.call (.place .data 7 1), .call (.defer ⟨.literal 5, 2⟩),
    .call (.defer ⟨.store .program ⟨3, by decide⟩, 2⟩)]

theorem formats_agree_unplaced :
    ∃ images, ((Session.start {}).after unplaced).resolve = .ok images ∧
      word? .vhdl images .data 0 = word? .hexDump images .data 0 ∧
      word? .blockRam images .program 3 = word? .hexDump images .program 3 ∧
      ¬∀ a < images.program.capacity,
        word? .vhdl images .program a = word? .hexDump images .program a := by
  refine ⟨_, rfl, ?_⟩
  obtain ⟨all, data, program⟩ := formats_agree _ ⟨{}, unplaced, rfl⟩ _ rfl
  refine ⟨data 0 (by decide), (all .program 3 (by decide)).2.2, fun agree => ?_⟩
  have literal := program.mp agree 3 (by decide) rfl
  revert literal
  decide

end TwoPass.Reading
