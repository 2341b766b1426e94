import TwoPass.Proofs.Patch
import TwoPass.Proofs.Recording

/-! Stores that can wait. A store to a cell in use does not change where later words
are placed, and it can be made after other patches unless one of them overwrites it. -/
namespace TwoPass

/-- Two patches of a program cell can change places. -/
theorem Cell.patched_right_comm (c : Cell) (v w : Value) :
    patched .program (patched .program c v) w = patched .program (patched .program c w) v := by
  simp only [patched, withLiteral]
  rw [BitVec.add_assoc, BitVec.add_comm (v.setWidth 16), ← BitVec.add_assoc]

theorem Cell.foldl_patched_comm (c : Cell) (v : Value) (values : List Value) :
    values.foldl (patched .program) (patched .program c v) =
      patched .program (values.foldl (patched .program) c) v := by
  induction values generalizing c with
  | nil => rfl
  | cons w values ih => rw [List.foldl_cons, patched_right_comm, ih, List.foldl_cons]

namespace Image
variable {m : Memory}

/-- A store to a cell in use leaves all marks as they are. -/
theorem used_store {image : Image m} {a : Address} (used : (image.cell a).used = true) (v : Value)
    (b : Address) : ((image.store a v).cell b).used = (image.cell b).used := by
  rw [cell_store]
  split
  · rename_i same
    subst same
    cases m with
    | program => rfl
    | data => exact used.symm
  · rfl

theorem next_store {image : Image m} {a : Address} (used : (image.cell a).used = true) (v : Value)
    (line : Line) : (image.store a v).next line = image.next line := by
  simp only [next, capacity_store, cursor_store, used_store used]

theorem next_ok_line {image : Image m} {line : Line} {a : Address} (room : image.next line = .ok a)
    (other : Line) : image.next other = .ok a := by
  unfold next at room ⊢
  split at room
  · rename_i below
    rw [dif_pos below]
    simp only at room ⊢
    split at room
    · contradiction
    · rename_i unused
      rw [if_neg unused]
      exact room
  · contradiction

theorem used_append {image : Image m} {a : Address} (used : (image.cell a).used = true) (v : Value)
    (line : Line) : ((image.append v line).2.cell a).used = true := by
  rw [cell_append_of_used used]
  exact used

/-- Words are placed the same before and after a store to a cell in use. -/
theorem append_store {image : Image m} {a : Address} (used : (image.cell a).used = true) (v w : Value)
    (line : Line) : ((image.store a v).append w line).2 = (image.append w line).2.store a v := by
  cases room : image.next line with
  | error fault =>
    have refused := (next_store used v line).trans room
    rw [append_of_error refused, append_of_error room]
  | ok b =>
    have stored := (next_store used v line).trans room
    have different : b ≠ a := ne_of_used room used
    apply ext
    · simp
    · rw [cursor_append_of_ok stored, cursor_store, cursor_store, cursor_append_of_ok room]
    · intro c
      rw [cell_append_of_ok stored, cell_store, cell_store, cell_append_of_ok room, cell_append_of_ok room]
      by_cases here : b = c
      · subst here
        simp [Ne.symm different]
      · simp [here, different]

theorem appendAll_store {image : Image m} {a : Address} (used : (image.cell a).used = true) (v : Value)
    (words : List (Value × Line)) :
    (image.store a v).appendAll words = (image.appendAll words).store a v := by
  induction words generalizing image with
  | nil => rfl
  | cons w words ih =>
    rw [appendAll_cons, append_store used, ih (used_append used w.1 w.2), appendAll_cons]

/-- A store can wait until other patches are made, unless one of them overwrites it. -/
theorem patchAll_store (image : Image m) (a : Address) (v : Value) {patches : List Patch}
    (kept : m = .program ∨ Patch.valuesAt m a patches = []) :
    (image.store a v).patchAll patches = (image.patchAll patches).store a v := by
  apply ext
  · simp
  · simp
  · intro b
    rw [cell_patchAll, cell_store, cell_store, cell_patchAll, cell_patchAll]
    by_cases here : a = b
    · subst here
      simp only [if_true]
      rcases kept with rfl | none
      · exact Cell.foldl_patched_comm _ _ _
      · rw [none]
        rfl
    · simp only [if_neg here]

theorem patchAll_patch (image : Image m) (p : Patch) {patches : List Patch}
    (kept : p.memory = .program ∨ Patch.valuesAt p.memory p.address patches = []) :
    (image.patch p).patchAll patches = (image.patchAll patches).patch p := by
  unfold patch
  split
  · rename_i same
    subst same
    exact patchAll_store image p.address p.value kept
  · rfl

end Image
end TwoPass
