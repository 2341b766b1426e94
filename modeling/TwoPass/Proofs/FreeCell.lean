import TwoPass.Proofs.Agreement
import TwoPass.Proofs.Replay

/-! Free cells in the formats that list every cell. They are written with their contents,
which is zero in data memory; in program memory it is the literal that was patched into
a cell without a word, and zero only if there was none. -/
namespace TwoPass

namespace Session

/-- A program cell has no literal without a word, and no pending action adds to it. -/
structure Unpatched (s : Session) (a : Address) : Prop where
  literal : (s.program.cell a).used = false → (s.program.cell a).literal = 0
  pending : ∀ action ∈ s.pending, action.work ≠ .store .program a

namespace Unpatched
variable {s : Session} {a : Address}

theorem start (sizes : Sizes) (a : Address) : (start sizes).Unpatched a := by
  constructor
  · intro _
    have nothing : (Session.start sizes).program.cell a = .free := Image.cell_empty _ _ a
    rw [nothing]
    rfl
  · intro action queued
    contradiction

theorem place (unpatched : s.Unpatched a) (m : Memory) (v : Value) (line : Line) :
    (s.place m v line).2.Unpatched a := by
  cases m with
  | program =>
    refine ⟨?_, unpatched.pending⟩
    have program : (s.place .program v line).2.program = (s.program.append v line).2 := rfl
    rw [program]
    cases room : s.program.next line with
    | error fault =>
      rw [Image.append_of_error room]
      exact unpatched.literal
    | ok b =>
      rw [Image.cell_append_of_ok room]
      split
      · intro free
        contradiction
      · exact unpatched.literal
  | data => exact ⟨unpatched.literal, unpatched.pending⟩

theorem call (unpatched : s.Unpatched a) {c : Call}
    (other : ∀ action, c = .defer action → action.work ≠ .store .program a) :
    (s.call c).2.Unpatched a := by
  cases c with
  | place m v line => exact unpatched.place m v line
  | define symbol => exact ⟨unpatched.literal, unpatched.pending⟩
  | defer action =>
    refine ⟨unpatched.literal, fun queued member => ?_⟩
    rcases List.mem_append.mp member with earlier | last
    · exact unpatched.pending queued earlier
    · rw [List.mem_singleton.mp last]
      exact other action rfl

/-- The only step that patches the cell replays a store to it. -/
theorem step (machine : Machine) (unpatched : machine.session.Unpatched a) :
    machine.step.2.session.Unpatched a := by
  rcases stepped : machine.step with ⟨answer, next⟩
  cases Machine.step_outcome stepped with
  | idle | finish => exact ⟨unpatched.literal, unpatched.pending⟩
  | push | fault =>
    exact ⟨unpatched.literal, fun action queued => unpatched.pending action (List.mem_cons_of_mem _ queued)⟩
  | @store _ program _ _ action _ _ _ m b v performed =>
    refine ⟨?_, fun action queued => unpatched.pending action (List.mem_cons_of_mem _ queued)⟩
    have first := unpatched.pending action List.mem_cons_self
    have work := (action.perform_store performed).1
    have same : (program.patch ⟨m, b, v⟩).cell a = program.cell a := by
      unfold Image.patch
      split
      · rename_i here
        have there : b ≠ a := by
          rintro rfl
          exact first (here ▸ work)
        rw [Image.cell_store, if_neg there]
      · rfl
    simp only [same]
    exact unpatched.literal

theorem after (unpatched : s.Unpatched a) {history : List Occurrence}
    (other : ∀ action, .call (.defer action) ∈ history → action.work ≠ .store .program a) :
    (s.after history).Unpatched a := by
  induction history generalizing s with
  | nil => exact unpatched
  | cons occurrence history ih =>
    refine ih ?_ fun action member => other action (List.mem_cons_of_mem _ member)
    cases occurrence with
    | call c =>
      refine unpatched.call fun action same => other action ?_
      rw [same]
      exact List.mem_cons_self
    | drive commands => exact Machine.obeyAll_keep (P := (·.session.Unpatched a)) step commands unpatched

end Unpatched
end Session

/-- All that a free cell can hold is a literal. -/
theorem Cell.value_of_free {m : Memory} {c : Cell} (formed : c.Formed m) (free : c.used = false) :
    c.value = c.literal.toNat := by
  have narrow : m.cellBits false ≤ 16 := by cases m <;> decide
  rw [Formed, free] at formed
  have small : c.value < 2 ^ 16 :=
    Nat.lt_of_lt_of_le formed (Nat.pow_le_pow_right (by decide) narrow)
  rw [← c.value_mod, Nat.mod_eq_of_lt small]

namespace Reading

/-- Both formats that list every cell give a free one the literal it holds. -/
theorem word?_of_free {images : Images} (sound : images.Sound) {m : Memory} {a : Address}
    (below : a.val < (images.image m).capacity) (free : ((images.image m).cell a).used = false)
    {format : Listing.Format} (lists : format = .hexDump ∨ format = .blockRam) :
    word? format images m a = some ((images.image m).cell a).literal.toNat := by
  have written : word? format images m a = some ((images.image m).cell a).value := by
    rcases lists with rfl | rfl
    · simp only [word?]
      rw [HexDump.word?_render sound m below, Image.cellAt_val]
    · simp only [word?]
      rw [BlockRam.word?_render sound m below, Image.cellAt_val]
  rw [written, Cell.value_of_free (sound.formed m a) free]

/-- A free cell is written as the literal it holds. That is zero in data memory, and in
program memory unless some deferred action stores to the cell. -/
theorem free_words_eq_literal (sizes : Sizes) (history : List Occurrence) (images : Images)
    (resolved : ((Session.start sizes).after history).resolve = .ok images) (m : Memory) (a : Address)
    (below : a.val < (images.image m).capacity) (free : ((images.image m).cell a).used = false) :
    let literal := ((images.image m).cell a).literal.toNat
    word? .hexDump images m a = some literal ∧ word? .blockRam images m a = some literal ∧
    ((m = .data ∨ ∀ action, .call (.defer action) ∈ history → action.work ≠ .store .program a) →
      literal = 0) := by
  intro literal
  have sound := Session.Reachable.sound ⟨sizes, history, rfl⟩ resolved
  refine ⟨word?_of_free sound below free (.inl rfl), word?_of_free sound below free (.inr rfl), ?_⟩
  have data : m = .data → literal = 0 := by
    rintro rfl
    rw [← value_of_free_data (sound.formed .data a) free, Cell.value_of_free (sound.formed .data a) free]
  rintro (here | unstored)
  · exact data here
  · cases m with
    | program =>
      have unpatched := (Session.Unpatched.start sizes a).after unstored
      obtain ⟨t, final, rfl⟩ := Session.resolve_keep (P := (·.Unpatched a))
        Session.Unpatched.step unpatched resolved
      have none : (t.program.cell a).literal = 0 := final.literal free
      simp only [literal, Images.image, none]
      rfl
    | data => exact data rfl

/-- A literal is stored to a program cell that no word was placed in. -/
def patchedUnplaced (a : Address) : List Occurrence :=
  [.call (.defer ⟨.literal 5, 1⟩), .call (.defer ⟨.store .program a, 1⟩)]

theorem free_words_eq_literal_patched :
    ∃ images, ((Session.start {}).after (patchedUnplaced 3)).resolve = .ok images ∧
      word? .hexDump images .program 3 = some 5 ∧ word? .blockRam images .program 3 = some 5 ∧
      word? .hexDump images .program 4 = some 0 ∧ word? .blockRam images .data 3 = some 0 := by
  refine ⟨_, rfl, ?_⟩
  obtain ⟨dumped, initialised, -⟩ :=
    free_words_eq_literal {} (patchedUnplaced 3) _ rfl .program 3 (by decide) rfl
  obtain ⟨program, -⟩ :=
    free_words_eq_literal {} (patchedUnplaced 3) _ rfl .program 4 (by decide) rfl
  obtain ⟨-, data, -⟩ :=
    free_words_eq_literal {} (patchedUnplaced 3) _ rfl .data 3 (by decide) rfl
  exact ⟨dumped, initialised, program, data⟩

/-- Not every free cell is written as zero. -/
theorem free_words_not_zero :
    ¬∀ (s : Session) (images : Images), s.Reachable → s.resolve = .ok images →
      ∀ (m : Memory) (a : Address), a.val < (images.image m).capacity →
        ((images.image m).cell a).used = false →
          word? .hexDump images m a = some 0 ∧ word? .blockRam images m a = some 0 := by
  intro zero
  have reachable : ((Session.start {}).after (patchedUnplaced 3)).Reachable :=
    ⟨{}, patchedUnplaced 3, rfl⟩
  have claimed := (zero _ _ reachable rfl .program 3 (by decide) rfl).1
  have written := word?_of_free (reachable.sound rfl) (a := 3) (m := .program) (by decide) rfl (.inl rfl)
  have same := Option.some.inj (written.symm.trans claimed)
  revert same
  decide

end Reading
end TwoPass
