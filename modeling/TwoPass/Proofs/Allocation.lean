import Mathlib.Data.List.DropRight
import TwoPass.Proofs.Failure
import TwoPass.Proofs.History
import TwoPass.Proofs.Recording

/-! Where words are placed, over every history of one memory. A store marks its cell in
data memory only, and clearing takes all marks away but leaves the cursor, so that the
two memories refuse a word for different reasons. -/
namespace TwoPass

namespace Image
variable {m : Memory}

namespace Change

def isClear : Change → Bool
  | .clear => true
  | _ => false

def storesTo (a : Address) : Change → Bool
  | .store b _ => b = a
  | _ => false

end Change

/-- Whether a cell was stored to since the memory was last cleared, or at all if it never
was. -/
def storedSinceClear (a : Address) (changes : List Change) : Bool :=
  (changes.rtakeWhile fun change => !change.isClear).any (Change.storesTo a)

theorem storedSinceClear_concat (a : Address) (changes : List Change) (change : Change) :
    storedSinceClear a (changes ++ [change]) =
      (!change.isClear && (storedSinceClear a changes || change.storesTo a)) := by
  cases change <;> simp [storedSinceClear, Change.isClear]

/-- What the appends of a history are answered, oldest first. -/
def answers (image : Image m) : List Change → List (Except Fault Address)
  | [] => []
  | .append v line :: rest => (image.append v line).1 :: (image.append v line).2.answers rest
  | change :: rest => (image.change change).answers rest

/-- The addresses that a history is answered, one for each word that it places. -/
def granted (image : Image m) (changes : List Change) : List Address :=
  (image.answers changes).filterMap Except.toOption

/-- All answers to an append: the memory is full, or the cell at the cursor decides. -/
theorem next_cases (image : Image m) (line : Line) :
    (image.capacity ≤ image.cursor ∧
      image.next line = .error (.memoryOverflow m image.capacity line)) ∨
    ∃ a : Address, a.val = image.cursor ∧ image.cursor < image.capacity ∧
      image.next line = if (image.cell a).used then .error (.collision m a line) else .ok a := by
  by_cases below : image.cursor < image.capacity
  · refine .inr ⟨⟨image.cursor, Nat.lt_of_lt_of_le below image.capacity_le⟩, rfl, below, ?_⟩
    simp only [next, dif_pos below]
  · refine .inl ⟨Nat.le_of_not_lt below, ?_⟩
    simp only [next, dif_neg below]

theorem cursor_lt_of_next {image : Image m} {line : Line} {a : Address} (room : image.next line = .ok a) :
    image.cursor < image.capacity := by
  rcases image.next_cases line with ⟨-, refused⟩ | ⟨-, -, below, -⟩
  · rw [refused] at room
    contradiction
  · exact below

theorem granted_append (image : Image m) (v : Value) (line : Line) (rest : List Change) :
    image.granted (.append v line :: rest) =
      (image.next line).toOption.toList ++ (image.append v line).2.granted rest := by
  simp only [granted, answers, append_result, List.filterMap_cons]
  cases image.next line <;> rfl

/-- Words are placed one behind the other, from the cursor on. -/
theorem granted_eq_range' (image : Image m) (changes : List Change) :
    (image.after changes).cursor = image.cursor + (image.granted changes).length ∧
      (image.granted changes).map Fin.val =
        List.range' image.cursor (image.granted changes).length := by
  induction changes generalizing image with
  | nil => exact ⟨rfl, rfl⟩
  | cons change changes ih =>
    obtain ⟨cursor, addresses⟩ := ih (image.change change)
    have first : image.after (change :: changes) = (image.change change).after changes := rfl
    rw [first, cursor]
    cases change with
    | append v line =>
      simp only [Image.change] at addresses ⊢
      rw [granted_append]
      cases room : image.next line with
      | error fault =>
        rw [append_of_error room] at addresses ⊢
        exact ⟨rfl, addresses⟩
      | ok a =>
        rw [cursor_append_of_ok room] at addresses ⊢
        simp only [Except.toOption, Option.toList_some, List.singleton_append, List.length_cons,
          List.map_cons, addresses, List.range'_succ, (next_ok room).1]
        exact ⟨by omega, trivial⟩
    | store b v => exact ⟨rfl, addresses⟩
    | clear => exact ⟨rfl, addresses⟩

/-- From the cursor on, only data memory has marked cells, those that were stored to
since the last clearing. -/
structure Tracks (image : Image m) (changes : List Change) : Prop where
  bounded : image.cursor ≤ image.capacity
  used_iff : ∀ a : Address, image.cursor ≤ a.val →
    ((image.cell a).used = true ↔ m = .data ∧ storedSinceClear a changes = true)

theorem Tracks.change {image : Image m} {changes : List Change} (tracks : image.Tracks changes)
    (change : Change) : (image.change change).Tracks (changes ++ [change]) := by
  obtain ⟨bounded, used_iff⟩ := tracks
  cases change with
  | append v line =>
    have unstored : ∀ a, storedSinceClear a (changes ++ [.append v line]) =
        storedSinceClear a changes := by
      intro a
      simp [storedSinceClear_concat, Change.isClear, Change.storesTo]
    simp only [Image.change]
    cases room : image.next line with
    | error fault =>
      rw [append_of_error room]
      refine ⟨bounded, fun a above => ?_⟩
      rw [unstored]
      exact used_iff a above
    | ok b =>
      constructor
      · rw [cursor_append_of_ok room, capacity_append]
        exact cursor_lt_of_next room
      · intro a above
        have here := (next_ok room).1
        rw [cursor_append_of_ok room] at above
        have other : b ≠ a := by
          rintro rfl
          omega
        rw [cell_append_of_ok room, if_neg other, unstored]
        exact used_iff a (by omega)
  | store b v =>
    refine ⟨bounded, fun a above => ?_⟩
    have before := used_iff a above
    simp only [Image.change, cell_store, storedSinceClear_concat, Change.isClear, Change.storesTo]
    by_cases hit : b = a
    · subst hit
      -- Only here do the memories differ: a patched program cell keeps its mark.
      cases m with
      | program => simpa [Cell.patched_program] using before
      | data => simp [Cell.patched_data, Cell.placed, Cell.ofWord]
    · simpa [hit] using before
  | clear =>
    refine ⟨bounded, fun a _ => ?_⟩
    simp [Image.change, storedSinceClear_concat, Change.isClear, Cell.free]

theorem tracks_after (m : Memory) (capacity : Nat) (changes : List Change) :
    ((empty m capacity).after changes).Tracks changes := by
  induction changes using List.reverseRecOn with
  | nil =>
    refine ⟨Nat.zero_le _, fun a _ => ?_⟩
    simp [after, storedSinceClear, Cell.free]
  | append_singleton changes change ih =>
    rw [after_append]
    exact ih.change change

theorem Tracks.next_eq_overflow_iff {image : Image m} {changes : List Change}
    (tracks : image.Tracks changes) (line : Line) :
    image.next line = .error (.memoryOverflow m image.capacity line) ↔
      image.cursor = image.capacity := by
  rcases image.next_cases line with ⟨full, refused⟩ | ⟨a, -, below, answered⟩
  · exact iff_of_true refused (Nat.le_antisymm tracks.bounded full)
  · refine iff_of_false ?_ (Nat.ne_of_lt below)
    rw [answered]
    split <;> simp

/-- Below the capacity, only an earlier store to the cell at the cursor refuses a word. -/
theorem Tracks.next_eq {image : Image m} {changes : List Change} (tracks : image.Tracks changes)
    {a : Address} (here : a.val = image.cursor) (below : image.cursor < image.capacity) (line : Line) :
    image.next line =
      if m = .data ∧ storedSinceClear a changes = true then .error (.collision m a line) else .ok a := by
  rcases image.next_cases line with ⟨full, -⟩ | ⟨b, there, -, answered⟩
  · omega
  · obtain rfl : b = a := Fin.ext (there.trans here.symm)
    have used_iff := tracks.used_iff b (Nat.le_of_eq here.symm)
    rw [answered]
    simp only [used_iff]

/-- The next word would go to a cell in use. -/
structure Blocked (image : Image m) (a : Address) : Prop where
  here : a.val = image.cursor
  below : image.cursor < image.capacity
  used : (image.cell a).used = true

theorem next_eq_collision_iff {image : Image m} {line : Line} {n : Memory} {a : Address} {other : Line} :
    image.next line = .error (.collision n a other) ↔ image.Blocked a ∧ m = n ∧ line = other := by
  rcases image.next_cases line with ⟨full, refused⟩ | ⟨b, here, below, answered⟩
  · rw [refused]
    refine iff_of_false (by simp) ?_
    rintro ⟨blocked, -⟩
    exact Nat.not_lt.mpr full blocked.below
  · rw [answered]
    constructor
    · intro refused
      split at refused
      · rename_i used
        cases refused
        exact ⟨⟨here, below, used⟩, rfl, rfl⟩
      · contradiction
    · rintro ⟨blocked, rfl, rfl⟩
      obtain rfl : b = a := Fin.ext (here.trans blocked.here.symm)
      rw [if_pos blocked.used]

theorem Blocked.change {image : Image m} {a : Address} (blocked : image.Blocked a) {change : Change}
    (kept : change.isClear = false) : (image.change change).Blocked a := by
  cases change with
  | append v line =>
    have refused : image.next line = .error (.collision m a line) :=
      next_eq_collision_iff.mpr ⟨blocked, rfl, rfl⟩
    simp only [Image.change, append_of_error refused]
    exact blocked
  | store b v =>
    refine ⟨blocked.here, blocked.below, ?_⟩
    simp only [Image.change, cell_store]
    split
    · rename_i hit
      subst hit
      cases m with
      | program => exact blocked.used
      | data => rfl
    · exact blocked.used
  | clear => contradiction

theorem Blocked.after {image : Image m} {a : Address} (blocked : image.Blocked a)
    {changes : List Change} (kept : ∀ change ∈ changes, change.isClear = false) :
    (image.after changes).Blocked a := by
  induction changes generalizing image with
  | nil => exact blocked
  | cons change changes ih =>
    refine ih (blocked.change (kept change List.mem_cons_self)) fun other member => ?_
    exact kept other (List.mem_cons_of_mem change member)

theorem appendAll_eq_after (image : Image m) (words : List (Value × Line)) :
    image.appendAll words = image.after (words.map fun w => .append w.1 w.2) := by
  rw [after, List.foldl_map]
  rfl

theorem storedSinceClear_appends (a : Address) (words : List (Value × Line)) :
    storedSinceClear a (words.map fun w => .append w.1 w.2) = false := by
  induction words using List.reverseRecOn with
  | nil => rfl
  | append_singleton words w ih =>
    rw [List.map_append, List.map_singleton, storedSinceClear_concat, ih]
    rfl

end Image

namespace Session

/-- Pass 1 alone never finds the next cell in use. -/
theorem call_ne_collision (sizes : Sizes) (sequence : List Call) (c : Call) (n : Memory) (a : Address)
    (line : Line) :
    (((start sizes).calls sequence).call c).1 ≠ some (.error (.collision n a line)) := by
  cases c with
  | place m v other =>
    have answered : (((start sizes).calls sequence).call (.place m v other)).1 =
        some ((((start sizes).calls sequence).image m).next other) := by
      cases m <;> simp [call, place, image]
    rw [answered]
    intro collided
    obtain ⟨blocked, -⟩ := Image.next_eq_collision_iff.mp (Option.some.inj collided)
    rw [image_calls, image_start, Image.appendAll_eq_after] at blocked
    have stored := ((Image.tracks_after m _ _).used_iff a (Nat.le_of_eq blocked.here.symm)).mp blocked.used
    rw [Image.storedSinceClear_appends] at stored
    exact Bool.false_ne_true stored.2
  | define symbol => simp [call]
  | defer action => simp [call]

end Session

/-- Placing words over any history of a memory. Words get consecutive addresses up to the
capacity and never replace one another; a refused word changes nothing. Program memory
refuses a word only when it is full. Data memory also refuses it in front of a cell that
was stored to, and goes on refusing until it is cleared; without a driver there are no
such stores. -/
theorem Image.allocation_over_histories (m : Memory) (capacity : Nat) (changes : List Image.Change) :
    let image := (Image.empty m capacity).after changes
    image.capacity = min capacity 65536 ∧ image.cursor ≤ image.capacity ∧
    ((Image.empty m capacity).granted changes).map Fin.val = List.range image.cursor ∧
    (∀ v line,
      ((image.append v line).1 = .error (.memoryOverflow m image.capacity line) ↔
        image.cursor = image.capacity) ∧
      (∀ a : Address, a.val = image.cursor → image.cursor ≠ image.capacity →
        (image.append v line).1 =
          if m = .data ∧ Image.storedSinceClear a changes = true then .error (.collision m a line)
          else .ok a) ∧
      (∀ fault, (image.append v line).1 = .error fault → (image.append v line).2 = image) ∧
      ∀ a, (image.cell a).used = true → (image.append v line).2.cell a = image.cell a) ∧
    (m = .program → ∀ a : Address, image.cursor ≤ a.val → (image.cell a).used = false) ∧
    (∀ v line n a other, (image.append v line).1 = .error (.collision n a other) →
      ∀ more : List Image.Change, (∀ change ∈ more, change.isClear = false) →
        ∀ v line, ((image.after more).append v line).1 = .error (.collision n a line)) ∧
    ∀ (sizes : Sizes) (sequence : List Call) (n : Memory) (a : Address) (line : Line),
      (∀ c, (((Session.start sizes).calls sequence).call c).1 ≠ some (.error (.collision n a line))) ∧
      ((Session.start sizes).calls sequence).resolve ≠ .error (.collision n a line) := by
  intro image
  have tracks : image.Tracks changes := Image.tracks_after m capacity changes
  refine ⟨Image.capacity_after _ _, tracks.bounded, ?_, ?_, ?_, ?_, ?_⟩
  · obtain ⟨cursor, addresses⟩ := (Image.empty m capacity).granted_eq_range' changes
    have fresh : (Image.empty m capacity).cursor = 0 := rfl
    rw [fresh, Nat.zero_add] at cursor
    rw [addresses, fresh, List.range_eq_range', cursor]
  · intro v line
    rw [Image.append_result]
    refine ⟨?_, ?_, ?_, ?_⟩
    · exact tracks.next_eq_overflow_iff line
    · intro a here unfilled
      exact tracks.next_eq here (Nat.lt_of_le_of_ne tracks.bounded unfilled) line
    · intro fault refused
      exact Image.append_of_error refused v
    · intro a used
      exact Image.cell_append_of_used used v line
  · rintro rfl a above
    simpa using tracks.used_iff a above
  · intro v line n a other refused more kept w later
    rw [Image.append_result] at refused ⊢
    obtain ⟨blocked, rfl, -⟩ := Image.next_eq_collision_iff.mp refused
    exact Image.next_eq_collision_iff.mpr ⟨blocked.after kept, rfl, rfl⟩
  · intro sizes sequence n a line
    refine ⟨fun c => Session.call_ne_collision sizes sequence c n a line, fun failed => ?_⟩
    obtain ⟨action, -, stack, lack | rejected⟩ := Session.fault_of_resolve failed
    · contradiction
    · cases rejected

/-- A store in front of the cursor blocks data memory until it is cleared. -/
example : (Image.empty .data 4).answers
    [.append 1 1, .store 1 9, .append 2 2, .append 3 3, .clear, .append 4 4] =
      [.ok 0, .error (.collision .data 1 2), .error (.collision .data 1 3), .ok 1] := rfl

end TwoPass
