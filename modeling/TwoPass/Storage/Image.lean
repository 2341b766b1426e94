import TwoPass.Fault
import TwoPass.Storage.Cell

/-! The contents of one memory while it is assembled. Pass 1 appends words at the
cursor, up to the capacity; pass 2 stores to any of the 65536 cells, also behind
the capacity. -/
namespace TwoPass

structure Image (m : Memory) where
  capacity : Nat
  cursor : Nat
  cells : Vector Cell 65536
  capacity_le : capacity ≤ 65536

namespace Image
variable {m : Memory}

/-- All cells are free. A capacity past the last address is cut to it. -/
def empty (m : Memory) (capacity : Nat) : Image m where
  capacity := min capacity 65536
  cursor := 0
  cells := Vector.replicate 65536 .free
  capacity_le := Nat.min_le_right _ _

def cell (image : Image m) (a : Address) : Cell :=
  image.cells[a]

/-- Frees every cell. The cursor stays where it is. -/
def clear : Image m → Image m
  | ⟨capacity, cursor, _, capacity_le⟩ =>
    ⟨capacity, cursor, Vector.replicate 65536 .free, capacity_le⟩

/-- Where the next word goes. There is no place at the end of the memory, nor in
front of a used cell. -/
def next (image : Image m) (line : Line) : Except Fault Address :=
  if below : image.cursor < image.capacity then
    let a : Address := ⟨image.cursor, Nat.lt_of_lt_of_le below image.capacity_le⟩
    if (image.cell a).used then .error (.collision m a line) else .ok a
  else
    .error (.memoryOverflow m image.capacity line)

/-- Places a word at the cursor and moves the cursor on. Without a place for the
word the image stays as it is. -/
def append (v : Value) (line : Line) (image : Image m) : Except Fault Address × Image m :=
  match image.next line with
  | .ok a =>
    let ⟨capacity, cursor, cells, capacity_le⟩ := image
    (.ok a, ⟨capacity, cursor + 1, cells.set a (.placed m v), capacity_le⟩)
  | .error fault => (.error fault, image)

/-- Patches one cell with a value computed in pass 2. -/
def store (a : Address) (v : Value) : Image m → Image m
  | ⟨capacity, cursor, cells, capacity_le⟩ =>
    ⟨capacity, cursor, cells.set a (.patched m cells[a] v), capacity_le⟩

/-- Used cells at all addresses, also behind the capacity. -/
def usedCount (image : Image m) : Nat :=
  image.cells.countP Cell.used

/-- The cell with a given number; behind the last address everything is free. -/
def cellAt (image : Image m) (a : Nat) : Cell :=
  image.cells[a]?.getD .free

def slice (image : Image m) (start count : Nat) : List Cell :=
  (List.range count).map fun i => image.cellAt (start + i)

def available (image : Image m) : List Cell :=
  image.slice 0 image.capacity

/-- The used cells up to the capacity with their addresses, in address order. -/
def usedCells (image : Image m) : List (Nat × Cell) :=
  (List.range image.capacity).filterMap fun a =>
    if (image.cellAt a).used then some (a, image.cellAt a) else none

/-- Capacity, cursor and cells are all there is to an image. -/
theorem ext {x y : Image m} (capacity : x.capacity = y.capacity) (cursor : x.cursor = y.cursor)
    (cells : ∀ a, x.cell a = y.cell a) : x = y := by
  cases x
  cases y
  simp only [mk.injEq]
  exact ⟨capacity, cursor, Vector.ext fun i bound => cells ⟨i, bound⟩⟩

@[simp] theorem cell_empty (m : Memory) (capacity : Nat) (a : Address) :
    (empty m capacity).cell a = .free := by
  simp [empty, cell]

@[simp] theorem cell_clear (image : Image m) (a : Address) : image.clear.cell a = .free := by
  simp [clear, cell]

@[simp] theorem cursor_clear (image : Image m) : image.clear.cursor = image.cursor := rfl

@[simp] theorem capacity_clear (image : Image m) : image.clear.capacity = image.capacity := rfl

theorem cell_store (image : Image m) (a b : Address) (v : Value) :
    (image.store a v).cell b = if a = b then .patched m (image.cell a) v else image.cell b := by
  simp [store, cell, Vector.getElem_set, Fin.ext_iff]

@[simp] theorem cursor_store (image : Image m) (a : Address) (v : Value) :
    (image.store a v).cursor = image.cursor := rfl

@[simp] theorem capacity_store (image : Image m) (a : Address) (v : Value) :
    (image.store a v).capacity = image.capacity := rfl

@[simp] theorem append_result (image : Image m) (v : Value) (line : Line) :
    (image.append v line).1 = image.next line := by
  simp only [append]
  split <;> simp_all

theorem append_of_error {image : Image m} {line : Line} {fault : Fault}
    (refused : image.next line = .error fault) (v : Value) : (image.append v line).2 = image := by
  simp [append, refused]

theorem cell_append_of_ok {image : Image m} {line : Line} {a : Address}
    (room : image.next line = .ok a) (v : Value) (b : Address) :
    (image.append v line).2.cell b = if a = b then .placed m v else image.cell b := by
  simp [append, room, cell, Vector.getElem_set, Fin.ext_iff]

theorem cursor_append_of_ok {image : Image m} {line : Line} {a : Address}
    (room : image.next line = .ok a) (v : Value) :
    (image.append v line).2.cursor = image.cursor + 1 := by
  simp [append, room]

@[simp] theorem capacity_append (image : Image m) (v : Value) (line : Line) :
    (image.append v line).2.capacity = image.capacity := by
  simp only [append]
  split <;> rfl

theorem cellAt_val (image : Image m) (a : Address) : image.cellAt a.val = image.cell a := by
  simp [cellAt, cell]

theorem length_slice (image : Image m) (start count : Nat) : (image.slice start count).length = count := by
  simp [slice]

theorem getElem_slice (image : Image m) {start count i : Nat} (inside : i < (image.slice start count).length) :
    (image.slice start count)[i] = image.cellAt (start + i) := by
  simp [slice]

end Image
end TwoPass
