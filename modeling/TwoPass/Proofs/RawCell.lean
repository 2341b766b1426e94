import Mathlib.Data.Nat.Bitwise
import TwoPass.Proofs.History
import TwoPass.Proofs.Recording

/-! The 32 bits of every cell, over all histories of a memory. The top bit marks a free cell,
and which other bits can be set depends on the mark and on the memory. -/
namespace TwoPass

/-- The raw contents of cells: words of 26 bits, or the mark and a literal, in program memory;
words of 16 bits, or the mark alone, in data memory. -/
def Memory.RawForm : Memory → (used : Bool) → Nat → Prop
  | .program, true, raw => raw < 2 ^ 26
  | .program, false, raw => ∃ literal < 2 ^ 16, raw = 0x80000000 + literal
  | .data, true, raw => raw < 2 ^ 16
  | .data, false, raw => raw = 0x80000000

namespace Cell

theorem raw_of_used {c : Cell} (used : c.used = true) : c.raw = c.value := by
  rw [raw, if_pos used]

theorem raw_of_free {c : Cell} (free : c.used = false) : c.raw = 0x80000000 + c.value := by
  rw [raw, free, if_neg Bool.false_ne_true]

theorem Formed.rawForm {m : Memory} {c : Cell} (formed : c.Formed m) : m.RawForm c.used c.raw := by
  rw [Formed] at formed
  cases used : c.used with
  | true =>
    rw [used] at formed
    rw [raw_of_used used]
    cases m <;> exact formed
  | false =>
    rw [used] at formed
    rw [raw_of_free used]
    cases m with
    | program => exact ⟨c.value, formed, rfl⟩
    | data => rw [Nat.lt_one_iff.mp formed]; rfl

/-- The mark is the top bit. -/
theorem testBit_raw (c : Cell) : c.raw.testBit 31 = !c.used := by
  have clear : c.value.testBit 31 = false := Nat.testBit_lt_two_pow c.value_lt
  cases used : c.used with
  | true => rw [raw_of_used used, clear]; rfl
  | false =>
    have marked : c.raw = 2 ^ 31 + c.value := raw_of_free used
    rw [marked, Nat.testBit_two_pow_add_eq, clear]

theorem raw_div (c : Cell) : c.raw / 2 ^ 16 = (if c.used then 0 else 2 ^ 15) + c.upper.toNat := by
  have value := c.value_div
  cases used : c.used with
  | true => rw [raw_of_used used, value, if_pos rfl, Nat.zero_add]
  | false =>
    rw [raw_of_free used, if_neg Bool.false_ne_true]
    omega

theorem raw_mod (c : Cell) : c.raw % 2 ^ 16 = c.literal.toNat := by
  have value := c.value_mod
  cases used : c.used with
  | true => rw [raw_of_used used, value]
  | false =>
    rw [raw_of_free used]
    omega

/-- A patch of program memory reaches no bit above the literal field. -/
theorem testBit_patched (c : Cell) (v : Value) {i : Nat} (above : 16 ≤ i) :
    (patched .program c v).raw.testBit i = c.raw.testBit i := by
  have upper : (patched .program c v).raw / 2 ^ 16 = c.raw / 2 ^ 16 := by
    rw [raw_div, raw_div]
    rfl
  obtain ⟨j, rfl⟩ := Nat.exists_eq_add_of_le' above
  rw [← Nat.testBit_div_two_pow, ← Nat.testBit_div_two_pow, upper]

end Cell

namespace Image
variable {m : Memory}

/-- Everything that a change can do to a cell. -/
theorem cell_change (image : Image m) (change : Change) (b : Address) :
    (image.change change).cell b = image.cell b ∨
    (∃ v line, change = .append v line ∧ image.next line = .ok b ∧
      (image.change change).cell b = .placed m v) ∨
    (∃ v, change = .store b v ∧ (image.change change).cell b = .patched m (image.cell b) v) ∨
    change = .clear ∧ (image.change change).cell b = .free := by
  cases change with
  | append v line =>
    simp only [Image.change]
    cases room : image.next line with
    | error fault => exact .inl (by rw [append_of_error room])
    | ok a =>
      rw [cell_append_of_ok room]
      by_cases here : a = b
      · subst here
        exact .inr (.inl ⟨v, line, rfl, room, if_pos rfl⟩)
      · exact .inl (if_neg here)
  | store a v =>
    simp only [Image.change, cell_store]
    by_cases here : a = b
    · subst here
      exact .inr (.inr (.inl ⟨v, rfl, if_pos rfl⟩))
    · exact .inl (if_neg here)
  | clear => exact .inr (.inr (.inr ⟨rfl, image.cell_clear b⟩))

/-- The address that a change is meant for; a word goes to the cursor. -/
def Change.address? (image : Image m) : Change → Option Nat
  | .append _ _ => some image.cursor
  | .store a _ => some a.val
  | .clear => none

theorem cell_change_of_ne {image : Image m} {change : Change} {a : Nat}
    (meant : change.address? image = some a) {b : Address} (other : b.val ≠ a) :
    (image.change change).cell b = image.cell b := by
  obtain same | ⟨v, line, rfl, room, -⟩ | ⟨v, rfl, -⟩ | ⟨rfl, -⟩ := image.cell_change change b
  · exact same
  · cases meant
    exact absurd (next_ok room).1 other
  · cases meant
    exact absurd rfl other
  · contradiction

theorem used_change {image : Image m} {change : Change} {a : Nat}
    (meant : change.address? image = some a) {b : Address} (used : (image.cell b).used = true) :
    ((image.change change).cell b).used = true := by
  obtain same | ⟨v, line, -, -, placed⟩ | ⟨v, -, patched⟩ | ⟨rfl, -⟩ := image.cell_change change b
  · rw [same]
    exact used
  · rw [placed]
    rfl
  · rw [patched]
    cases m with
    | program => exact used
    | data => rfl
  · contradiction

end Image

/-- The bits of all cells over any history of a memory. A cell keeps the format of its memory.
Placing and storing never free a cell and reach the one cell they are meant for: a word fills
it up to the width of the memory, and a store to program memory adds to the literal field
without a change to any other bit. -/
theorem Image.raw_format_over_histories (m : Memory) (capacity : Nat) (changes : List Image.Change) :
    let image := (Image.empty m capacity).after changes
    (∀ a, m.RawForm (image.cell a).used (image.cell a).raw ∧
      (image.cell a).raw.testBit 31 = !(image.cell a).used) ∧
    (∀ change a, Change.address? image change = some a →
      (∀ b, (image.cell b).used = true → ((image.change change).cell b).used = true) ∧
      ∀ b : Address, b.val ≠ a → (image.change change).cell b = image.cell b) ∧
    (∀ v line a, (image.append v line).1 = .ok a →
      ((image.append v line).2.cell a).raw = v.toNat % 2 ^ m.cellBits true) ∧
    (m = .data → ∀ a v, ((image.store a v).cell a).raw = v.toNat % 2 ^ 16) ∧
    (m = .program → ∀ a v,
      (∀ i, 16 ≤ i → ((image.store a v).cell a).raw.testBit i = (image.cell a).raw.testBit i) ∧
      ((image.store a v).cell a).raw % 2 ^ 16 = ((image.cell a).raw + v.toNat) % 2 ^ 16) := by
  intro image
  have formed : ∀ a, (image.cell a).Formed m := by
    refine Image.formed_after (fun a => ?_) changes
    rw [Image.cell_empty]
    exact Cell.formed_free m
  refine ⟨?_, ?_, ?_, ?_, ?_⟩
  · intro a
    exact ⟨(formed a).rawForm, (image.cell a).testBit_raw⟩
  · intro change a meant
    exact ⟨fun b => used_change meant, fun b => cell_change_of_ne meant⟩
  · intro v line a placed
    rw [append_result] at placed
    rw [cell_append_of_ok placed, if_pos rfl, Cell.raw_of_used rfl, Cell.value_placed]
  · rintro rfl a v
    rw [cell_store, if_pos rfl, Cell.patched_data, Cell.raw_of_used rfl, Cell.value_placed]
    rfl
  · rintro rfl a v
    rw [cell_store, if_pos rfl]
    refine ⟨fun i above => Cell.testBit_patched _ v above, ?_⟩
    rw [Cell.raw_mod, Nat.add_mod, Cell.raw_mod]
    simp [Cell.patched, Cell.withLiteral]

end TwoPass
