import Mathlib.Order.Interval.Finset.Nat
import TwoPass.Proofs.Allocation
import TwoPass.Proofs.Assembly
import TwoPass.Proofs.Reading.VhdlText

/-! How many cells of both memories are in use after an assembly. All 65536 cells of a
memory are counted, but only those below its capacity are listed, and stores of pass 2
reach the others. -/
namespace TwoPass

namespace Image
variable {m : Memory}

/-- The addresses below a bound whose cells are used. -/
def usedBelow (image : Image m) (bound : Nat) : Finset Nat :=
  (Finset.range bound).filter fun a => (image.cellAt a).used

theorem card_usedBelow (image : Image m) (bound : Nat) :
    (image.usedBelow bound).card = (List.range bound).countP fun a => (image.cellAt a).used := by
  rw [usedBelow, ← List.toFinset_range, ← List.toFinset_filter,
    List.toFinset_card_of_nodup (List.nodup_range.filter _), List.countP_eq_length_filter]

/-- What makes a cell used decides which cells below a bound are. -/
theorem usedBelow_eq {image : Image m} {used : Finset Nat}
    (every : ∀ a : Address, (image.cell a).used = true ↔ a.val ∈ used) {bound : Nat}
    (within : bound ≤ 65536) : image.usedBelow bound = used.filter (· < bound) := by
  ext a
  simp only [usedBelow, Finset.mem_filter, Finset.mem_range]
  rw [and_comm, and_congr_left_iff]
  intro below
  have cell := every ⟨a, Nat.lt_of_lt_of_le below within⟩
  rwa [← cellAt_val] at cell

theorem usedBelow_filter (image : Image m) {few bound : Nat} (fewer : few ≤ bound) :
    (image.usedBelow bound).filter (· < few) = image.usedBelow few := by
  ext a
  simp only [usedBelow, Finset.mem_filter, Finset.mem_range]
  constructor
  · rintro ⟨⟨-, used⟩, below⟩
    exact ⟨below, used⟩
  · rintro ⟨below, used⟩
    exact ⟨⟨below.trans_le fewer, used⟩, below⟩

theorem usedCount_eq (image : Image m) : image.usedCount = (image.usedBelow 65536).card := by
  have cells : image.cells.toList = (List.range 65536).map image.cellAt := by
    apply List.ext_getElem
    · simp
    · intro a inside _
      have bound : a < 65536 := by simpa using inside
      simp [cellAt, bound]
  rw [usedCount, ← Vector.countP_toList, cells, List.countP_map, card_usedBelow]
  rfl

theorem length_usedCells (image : Image m) :
    image.usedCells.length = (image.usedBelow image.capacity).card := by
  rw [usedCells, List.length_filterMap_eq_countP, card_usedBelow]
  congr 1
  funext a
  split <;> simp_all

/-- Words find a place below the capacity only. -/
theorem cursor_add_placements_le (image : Image m) (within : image.cursor ≤ image.capacity)
    (words : List (Value × Line)) : image.cursor + (image.placements words).length ≤ image.capacity := by
  induction words generalizing image with
  | nil => exact within
  | cons w words ih =>
    obtain ⟨v, line⟩ := w
    obtain ⟨fault, refused, same, eq⟩ | ⟨a, room, here, eq⟩ := image.placements_cons v line words
    · rw [eq]
      exact ih image within
    · have next : (image.append v line).2.cursor ≤ (image.append v line).2.capacity := by
        rw [cursor_append_of_ok room, capacity_append]
        exact cursor_lt_of_next room
      have rest := ih _ next
      rw [cursor_append_of_ok room, capacity_append] at rest
      rw [eq, List.length_cons]
      omega

end Image

/-- The address in this memory that an action stores to. -/
def Action.target? (m : Memory) (action : Action) : Option Address :=
  match action.work with
  | .store n a => if n = m then some a else none
  | _ => none

theorem Action.target?_eq_some_iff {m : Memory} {action : Action} {a : Address} :
    action.target? m = some a ↔ action.work = .store m a := by
  rw [target?]
  split
  · rename_i n b work
    rw [work, Work.store.injEq]
    by_cases here : n = m
    · simp [here]
    · simp [here]
  · rename_i other
    exact iff_of_false (by simp) (other m a)

/-- All addresses in this memory that some actions store to. -/
def storedAddresses (m : Memory) (actions : List Action) : Finset Nat :=
  (actions.filterMap fun action => (action.target? m).map Fin.val).toFinset

theorem mem_storedAddresses {m : Memory} {actions : List Action} {a : Address} :
    a.val ∈ storedAddresses m actions ↔ ∃ action ∈ actions, action.work = .store m a := by
  simp only [storedAddresses, List.mem_toFinset, List.mem_filterMap, Option.map_eq_some_iff,
    Action.target?_eq_some_iff]
  constructor
  · rintro ⟨action, queued, b, work, same⟩
    exact ⟨action, queued, Fin.ext same ▸ work⟩
  · rintro ⟨action, queued, work⟩
    exact ⟨action, queued, a, work, rfl⟩

theorem storedAddresses_lt {m : Memory} {actions : List Action} {a : Nat}
    (stored : a ∈ storedAddresses m actions) : a < 65536 := by
  simp only [storedAddresses, List.mem_toFinset, List.mem_filterMap, Option.map_eq_some_iff] at stored
  obtain ⟨action, -, b, -, rfl⟩ := stored
  exact b.isLt

namespace Session
variable {sizes : Sizes} {sequence : List Call} {images : Images}

theorem reachable_calls (sizes : Sizes) (sequence : List Call) :
    ((start sizes).calls sequence).Reachable := by
  refine ⟨sizes, sequence.map .call, ?_⟩
  rw [after, List.foldl_map]
  rfl

theorem placed_le_capacity (sizes : Sizes) (m : Memory) (sequence : List Call) :
    ((start sizes).placements m sequence).length ≤ (sizes.size m).count := by
  have fresh : ((start sizes).image m).cursor = 0 := by cases m <;> rfl
  have bounded := ((start sizes).image m).cursor_add_placements_le (by omega)
    (sequence.filterMap (Call.word? m))
  rw [fresh, Nat.zero_add, ← placements_eq, image_start] at bounded
  exact bounded.trans (Nat.min_le_left _ _)

section
variable (resolved : ((start sizes).calls sequence).resolve = .ok images)
include resolved

theorem used_program_iff (a : Address) :
    (images.program.cell a).used = true ↔
      a.val ∈ Finset.range ((start sizes).placements .program sequence).length := by
  rw [Finset.mem_range]
  exact (program_cell_resolve resolved a).1

theorem used_data_iff (a : Address) :
    (images.data.cell a).used = true ↔
      a.val ∈ Finset.range ((start sizes).placements .data sequence).length ∪
        storedAddresses .data (sequence.filterMap Call.action?) := by
  have contents := data_cell_resolve resolved a
  have pending : ((start sizes).calls sequence).pending = sequence.filterMap Call.action? := by
    rw [calls_eq]
    rfl
  simp only [pending] at contents
  rw [Finset.mem_union, Finset.mem_range, mem_storedAddresses]
  split at contents
  · rename_i stored
    exact iff_of_true contents.1 (.inr stored)
  · rename_i unstored
    split at contents
    · rename_i placed
      exact iff_of_true contents.1 (.inl placed)
    · rename_i unplaced
      rw [contents]
      refine iff_of_false (by decide) ?_
      rintro (placed | stored)
      · exact unplaced placed
      · exact unstored stored

theorem sizes_resolve : images.sizes = sizes := by
  obtain ⟨patches, left, -, rfl⟩ := resolve_ok resolved
  simp only [calls_eq]
  rfl

theorem length_entries (m : Memory) :
    (Reading.Vhdl.entries m (Listing.Format.vhdl.render images)).length =
      ((images.image m).usedBelow (sizes.size m).count).card := by
  have sound := (reachable_calls sizes sequence).sound resolved
  rw [Reading.Vhdl.entries_render sound, List.length_map, Image.length_usedCells, sound.capacity,
    sizes_resolve resolved]

/-- Words are placed from the first address on, so that a bound behind them changes
nothing. -/
theorem card_usedBelow_program {bound : Nat} (reached : sizes.program.count ≤ bound)
    (within : bound ≤ 65536) :
    (images.program.usedBelow bound).card = ((start sizes).placements .program sequence).length := by
  have fits := placed_le_capacity sizes .program sequence
  rw [Image.usedBelow_eq (used_program_iff resolved) within, Finset.filter_true_of_mem, Finset.card_range]
  intro a placed
  exact Nat.lt_of_lt_of_le (Finset.mem_range.mp placed) (fits.trans reached)

/-- Stores reach the cells behind the capacity, words do not. -/
theorem usedBelow_data_behind :
    (images.data.usedBelow 65536).filter (¬· < sizes.data.count) =
      (storedAddresses .data (sequence.filterMap Call.action?)).filter (sizes.data.count ≤ ·) := by
  have fits := placed_le_capacity sizes .data sequence
  rw [Image.usedBelow_eq (used_data_iff resolved) le_rfl]
  ext a
  simp only [Finset.mem_filter, Finset.mem_union, Finset.mem_range, Nat.not_lt]
  constructor
  · rintro ⟨⟨placed | stored, -⟩, behind⟩
    · exact absurd (placed.trans_le fits) (Nat.not_lt.mpr behind)
    · exact ⟨stored, behind⟩
  · rintro ⟨stored, behind⟩
    exact ⟨⟨.inr stored, storedAddresses_lt stored⟩, behind⟩

end

/-- The used cells of program memory are its words, all of them listed. Data memory also
counts the cells that were stored to, of which those behind the capacity are not listed. -/
theorem usage_eq_listed (sizes : Sizes) (sequence : List Call) (images : Images)
    (resolved : ((start sizes).calls sequence).resolve = .ok images) :
    let placed := fun m => ((start sizes).placements m sequence).length
    let listed := fun m => (Reading.Vhdl.entries m (Listing.Format.vhdl.render images)).length
    let stored := storedAddresses .data (sequence.filterMap Call.action?)
    images.usage.program = placed .program ∧ images.usage.program = listed .program ∧
    images.usage.data = (Finset.range (placed .data) ∪ stored).card ∧
    images.usage.data = listed .data + (stored.filter (sizes.data.count ≤ ·)).card := by
  intro placed listed stored
  have program : images.usage.program = placed .program :=
    images.program.usedCount_eq.trans (card_usedBelow_program resolved sizes.program.count_le le_rfl)
  have data : images.usage.data = (images.data.usedBelow 65536).card := images.data.usedCount_eq
  refine ⟨program, ?_, ?_, ?_⟩
  · rw [program]
    simp only [listed, length_entries resolved]
    exact (card_usedBelow_program resolved le_rfl sizes.program.count_le).symm
  · rw [data, Image.usedBelow_eq (used_data_iff resolved) le_rfl, Finset.filter_true_of_mem]
    intro a member
    rcases Finset.mem_union.mp member with inside | outside
    · have fits := (placed_le_capacity sizes .data sequence).trans sizes.data.count_le
      exact Nat.lt_of_lt_of_le (Finset.mem_range.mp inside) fits
    · exact storedAddresses_lt outside
  · rw [data, ← Finset.card_filter_add_card_filter_not (· < sizes.data.count),
      Image.usedBelow_filter _ sizes.data.count_le, usedBelow_data_behind resolved]
    simp only [listed, length_entries resolved]
    rfl

/-- One data word, and stores to it, to a free cell below the capacity, and twice to one
behind it. -/
def storedBehind : List Call :=
  [.place .program 1 1, .place .data 7 1, .defer ⟨.literal 5, 2⟩,
    .defer ⟨.store .program ⟨4, by decide⟩, 2⟩] ++
    [⟨0, by decide⟩, ⟨5, by decide⟩, ⟨2000, by decide⟩, ⟨2000, by decide⟩].flatMap fun a =>
      [.defer ⟨.literal 9, 3⟩, .defer ⟨.store .data a, 3⟩]

theorem usage_eq_listed_storedBehind :
    ∃ images, ((start {}).calls storedBehind).resolve = .ok images ∧
      images.usage.program = 1 ∧ images.usage.data = 3 ∧
      (Reading.Vhdl.entries .data (Listing.Format.vhdl.render images)).length = 2 := by
  obtain ⟨images, resolved⟩ : ∃ images, ((start {}).calls storedBehind).resolve = .ok images := ⟨_, rfl⟩
  have stored : storedAddresses .data (storedBehind.filterMap Call.action?) = {0, 5, 2000} := by decide
  have one : ∀ m, ((start {}).placements m storedBehind).length = 1 := by
    intro m
    cases m <;> rfl
  obtain ⟨program, -, counted, listed⟩ := usage_eq_listed {} storedBehind images resolved
  simp only [stored, one] at program counted listed
  rw [counted] at listed
  exact ⟨images, resolved, program, counted, (Nat.add_right_cancel listed).symm⟩

end Session
end TwoPass
