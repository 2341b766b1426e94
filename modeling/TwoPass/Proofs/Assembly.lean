import TwoPass.Proofs.CellFormat
import TwoPass.Proofs.Recording
import TwoPass.Proofs.Replay

/-! The contents of both memories after an assembly, from the words that were placed
and the values that were stored. -/
namespace TwoPass.Session

theorem cell_calls (sizes : Sizes) (sequence : List Call) (m : Memory) (a : Address) :
    (((start sizes).calls sequence).image m).cell a =
      (((start sizes).placements m sequence).lookup a).elim .free (.placed m) := by
  have free : ((start sizes).image m).cell a = .free := by
    cases m <;> exact Image.cell_empty _ _ a
  rw [placements_eq, ← free, ← Image.cell_appendAll, calls_eq]
  cases m <;> rfl

/-- The first addresses have words, as many as were placed. -/
theorem lookup_start (sizes : Sizes) (sequence : List Call) (m : Memory) (a : Address) :
    (a.val < ((start sizes).placements m sequence).length ∧
      ∃ w, ((start sizes).placements m sequence).lookup a = some w) ∨
    (¬a.val < ((start sizes).placements m sequence).length ∧
      ((start sizes).placements m sequence).lookup a = none) := by
  have fresh : ((start sizes).image m).cursor = 0 := by cases m <;> rfl
  have absent := ((start sizes).image m).lookup_placements_eq_none_iff
    (sequence.filterMap (Call.word? m)) a
  rw [← placements_eq, fresh] at absent
  cases found : ((start sizes).placements m sequence).lookup a with
  | none =>
    have outside := absent.mp found
    exact .inr ⟨by omega, rfl⟩
  | some w =>
    have inside := mt absent.mpr (by simp [found])
    exact .inl ⟨by omega, w, rfl⟩

/-- A cell of an assembled memory holds the word placed there, patched with the values
stored there. -/
theorem cell_resolve {sizes : Sizes} {sequence : List Call} {images : Images}
    (resolved : ((start sizes).calls sequence).resolve = .ok images) (m : Memory) (a : Address) :
    (images.image m).cell a =
      ((Machine.start ((start sizes).calls sequence)).stored m a).foldl (Cell.patched m)
        ((((start sizes).placements m sequence).lookup a).elim .free (.placed m)) := by
  obtain ⟨patches, left, replayed, rfl⟩ := resolve_ok resolved
  have values := Machine.stored_of_replay ((start sizes).calls sequence).sizes
    ((start sizes).calls sequence).program ((start sizes).calls sequence).data replayed m a
  rw [← cell_calls]
  simp only [Machine.start]
  rw [values, ← Image.cell_patchAll]
  cases m <;> rfl

theorem length_stored {s : Session} {images : Images} (resolved : s.resolve = .ok images)
    (m : Memory) (a : Address) :
    ((Machine.start s).stored m a).length =
      s.pending.countP fun action => action.work = .store m a := by
  obtain ⟨patches, left, replayed, rfl⟩ := resolve_ok resolved
  have values := Machine.stored_of_replay s.sizes s.program s.data replayed m a
  rw [← Machine.length_valuesAt_of_replay replayed m a, ← values]
  rfl

theorem stored_eq_nil_iff {s : Session} {images : Images} (resolved : s.resolve = .ok images)
    (m : Memory) (a : Address) :
    (Machine.start s).stored m a = [] ↔ ∀ action ∈ s.pending, action.work ≠ .store m a := by
  rw [← List.length_eq_zero_iff, length_stored resolved, List.countP_eq_zero]
  simp

theorem formed_cell_resolve {sizes : Sizes} {sequence : List Call} {images : Images}
    (resolved : ((start sizes).calls sequence).resolve = .ok images) (m : Memory) (a : Address) :
    ((images.image m).cell a).Formed m := by
  rw [cell_resolve resolved]
  exact Cell.formed_foldl_patched (Cell.formed_elim_placed m _) _

theorem program_cell_resolve {sizes : Sizes} {sequence : List Call} {images : Images}
    (resolved : ((start sizes).calls sequence).resolve = .ok images) (a : Address) :
    let placed := (start sizes).placements .program sequence
    let stored := (Machine.start ((start sizes).calls sequence)).stored .program a
    let word := ((placed.lookup a).getD 0).toNat
    let cell := images.program.cell a
    (cell.used = true ↔ a.val < placed.length) ∧
    cell.value / 2 ^ 16 % 2 ^ 10 = word / 2 ^ 16 % 2 ^ 10 ∧
    (cell.literal.toNat : Int) = ((word % 2 ^ 16 : Nat) + (stored.map BitVec.toInt).sum) % 2 ^ 16 := by
  intro placed stored word cell
  have contents : cell = stored.foldl (Cell.patched .program) ((placed.lookup a).elim .free (.placed .program)) :=
    cell_resolve resolved .program a
  have base := Cell.value_elim_placed .program (placed.lookup a)
  have upper := Cell.value_div ((placed.lookup a).elim .free (.placed .program))
  have literal := Cell.value_mod ((placed.lookup a).elim .free (.placed .program))
  refine ⟨?_, ?_, ?_⟩
  · rw [contents, Cell.used_foldl_patched]
    obtain ⟨present, w, found⟩ | ⟨outside, found⟩ := lookup_start sizes sequence .program a
    · simp only [placed, found]
      exact iff_of_true rfl present
    · simp only [placed, found]
      exact iff_of_false (by decide) outside
  · rw [contents, Cell.value_div, Cell.upper_foldl_patched, ← upper, base]
    simp only [Memory.cellBits, word]
    omega
  · rw [contents, Cell.literal_foldl_patched, ← literal, base]
    simp only [Memory.cellBits, word]
    congr 3
    omega

theorem data_cell_resolve {sizes : Sizes} {sequence : List Call} {images : Images}
    (resolved : ((start sizes).calls sequence).resolve = .ok images) (a : Address) :
    let session := (start sizes).calls sequence
    let placed := (start sizes).placements .data sequence
    let stored := (Machine.start session).stored .data a
    let cell := images.data.cell a
    if ∃ action ∈ session.pending, action.work = .store .data a then
      cell.used = true ∧ ∃ v, stored.getLast? = some v ∧ (cell.value : Int) = v.toInt % 2 ^ 16
    else if a.val < placed.length then
      cell.used = true ∧ ∃ w, placed.lookup a = some w ∧ (cell.value : Int) = w.toInt % 2 ^ 16
    else cell = .free := by
  intro session placed stored cell
  have contents : cell = stored.foldl (Cell.patched .data) ((placed.lookup a).elim .free (.placed .data)) :=
    cell_resolve resolved .data a
  have holds : ∀ v, ((Cell.placed .data v).value : Int) = v.toInt % 2 ^ 16 := by
    intro v
    rw [Cell.value_placed, Value.toInt_emod_literal]
    rfl
  have unstored := stored_eq_nil_iff resolved .data a
  rw [Cell.foldl_patched_data] at contents
  split
  · rename_i addressed
    obtain ⟨action, queued, work⟩ := addressed
    have some_value : stored ≠ [] := fun none => unstored.mp none action queued work
    obtain ⟨v, last⟩ := Option.ne_none_iff_exists'.mp (mt List.getLast?_eq_none_iff.mp some_value)
    rw [last] at contents
    rw [contents]
    exact ⟨rfl, v, last, holds v⟩
  · rename_i unaddressed
    have none : stored = [] := unstored.mpr fun action queued work => unaddressed ⟨action, queued, work⟩
    rw [none] at contents
    obtain ⟨present, w, found⟩ | ⟨outside, found⟩ := lookup_start sizes sequence .data a
    · simp only [placed, found] at contents
      rw [if_pos present, contents]
      exact ⟨rfl, w, found, holds w⟩
    · simp only [placed, found] at contents
      rw [if_neg outside, contents]
      rfl

/-- The closed form of an assembly: program memory adds up all that is stored to a
word, data memory keeps the last value stored, and a cell without either is free.
Stores reach every address, with or without a word there. -/
theorem resolve_closed_form (sizes : Sizes) (sequence : List Call) (images : Images)
    (resolved : ((start sizes).calls sequence).resolve = .ok images) (a : Address) :
    let session := (start sizes).calls sequence
    let placed := fun m => (start sizes).placements m sequence
    let stored := fun m => (Machine.start session).stored m a
    let word := (((placed .program).lookup a).getD 0).toNat
    let program := images.program.cell a
    let data := images.data.cell a
    (∀ m, (stored m).length = session.pending.countP fun action => action.work = .store m a) ∧
    (program.used = true ↔ a.val < (placed .program).length) ∧
    program.value / 2 ^ 16 % 2 ^ 10 = word / 2 ^ 16 % 2 ^ 10 ∧
    (program.literal.toNat : Int) =
      ((word % 2 ^ 16 : Nat) + ((stored .program).map BitVec.toInt).sum) % 2 ^ 16 ∧
    (if ∃ action ∈ session.pending, action.work = .store .data a then
      data.used = true ∧ ∃ v, (stored .data).getLast? = some v ∧ (data.value : Int) = v.toInt % 2 ^ 16
    else if a.val < (placed .data).length then
      data.used = true ∧ ∃ w, (placed .data).lookup a = some w ∧ (data.value : Int) = w.toInt % 2 ^ 16
    else data = .free) ∧
    program.value < 2 ^ 26 ∧ data.value < 2 ^ 26 := by
  intro session placed stored word program data
  obtain ⟨used, opcode, literal⟩ := program_cell_resolve resolved a
  exact ⟨fun m => length_stored resolved m a, used, opcode, literal, data_cell_resolve resolved a,
    (formed_cell_resolve resolved .program a).value_lt, (formed_cell_resolve resolved .data a).value_lt⟩

/-- A program word that is patched twice, first with a symbol, and a data word stored
far behind the capacity. -/
def patchedTwice : List Call :=
  [.place .program 0x3FFFFFF 1, .place .data 7 2, .define ⟨"offset", -2, 3⟩,
    .defer ⟨.symbol "offset", 4⟩, .defer ⟨.store .program 0, 4⟩,
    .defer ⟨.literal 9, 5⟩, .defer ⟨.store .program 0, 5⟩,
    .defer ⟨.literal (-1), 6⟩, .defer ⟨.store .data 65535, 6⟩]

theorem resolve_closed_form_patchedTwice :
    ∃ images, ((start {}).calls patchedTwice).resolve = .ok images ∧
      (images.program.cell 0).used = true ∧
      (images.program.cell 0).value / 2 ^ 16 % 2 ^ 10 = 0x3FF ∧
      ((images.program.cell 0).literal.toNat : Int) = (0xFFFF + (-2 + 9)) % 2 ^ 16 ∧
      (images.data.cell 65535).used = true ∧
      ((images.data.cell 65535).value : Int) = 0xFFFF := by
  refine ⟨_, rfl, ?_⟩
  obtain ⟨-, used, opcode, literal, -⟩ := resolve_closed_form {} patchedTwice _ rfl 0
  obtain ⟨-, -, -, -, data, -⟩ := resolve_closed_form {} patchedTwice _ rfl 65535
  rw [if_pos (by decide)] at data
  obtain ⟨stored, v, last, value⟩ := data
  have same : some v = some (-1) := last.symm.trans rfl
  cases same
  exact ⟨used.mpr (by decide), opcode, literal, stored, value⟩

end TwoPass.Session
