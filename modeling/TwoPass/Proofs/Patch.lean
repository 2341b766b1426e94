import TwoPass.Replay.Resolution

/-! Pass 2 as a list of patches. Which values a replay stores, and where, depends on
the symbols and the stack alone; the memories only receive the patches in order. -/
namespace TwoPass

/-- A value that pass 2 takes from the stack, and the cell it is stored to. -/
structure Patch where
  memory : Memory
  address : Address
  value : Value
deriving DecidableEq

namespace Patch

/-- The values stored to one cell, oldest first. -/
def valuesAt (m : Memory) (a : Address) (patches : List Patch) : List Value :=
  (patches.filter fun p => p.memory = m ∧ p.address = a).map value

@[simp] theorem valuesAt_nil (m : Memory) (a : Address) : valuesAt m a [] = [] := rfl

theorem valuesAt_cons (m : Memory) (a : Address) (p : Patch) (patches : List Patch) :
    valuesAt m a (p :: patches) =
      if p.memory = m ∧ p.address = a then p.value :: valuesAt m a patches
      else valuesAt m a patches := by
  by_cases same : p.memory = m ∧ p.address = a
  · simp [valuesAt, same]
  · simp only [valuesAt, List.filter_cons, decide_eq_true_eq, if_neg same]

end Patch

namespace Image
variable {m : Memory}

/-- Patches of the other memory are passed over. -/
def patch (image : Image m) (p : Patch) : Image m :=
  if p.memory = m then image.store p.address p.value else image

def patchAll (image : Image m) (patches : List Patch) : Image m :=
  patches.foldl patch image

@[simp] theorem patchAll_nil (image : Image m) : image.patchAll [] = image := rfl

@[simp] theorem patchAll_cons (image : Image m) (p : Patch) (patches : List Patch) :
    image.patchAll (p :: patches) = (image.patch p).patchAll patches := rfl

theorem patchAll_append (image : Image m) (first second : List Patch) :
    image.patchAll (first ++ second) = (image.patchAll first).patchAll second :=
  List.foldl_append

@[simp] theorem capacity_patchAll (image : Image m) (patches : List Patch) :
    (image.patchAll patches).capacity = image.capacity := by
  induction patches generalizing image with
  | nil => rfl
  | cons p patches ih =>
    rw [patchAll_cons, ih, patch]
    split <;> rfl

@[simp] theorem cursor_patchAll (image : Image m) (patches : List Patch) :
    (image.patchAll patches).cursor = image.cursor := by
  induction patches generalizing image with
  | nil => rfl
  | cons p patches ih =>
    rw [patchAll_cons, ih, patch]
    split <;> rfl

/-- A cell only sees the values stored to itself. -/
theorem cell_patchAll (image : Image m) (patches : List Patch) (a : Address) :
    (image.patchAll patches).cell a =
      (Patch.valuesAt m a patches).foldl (Cell.patched m) (image.cell a) := by
  induction patches generalizing image with
  | nil => rfl
  | cons p patches ih =>
    rw [patchAll_cons, ih, Patch.valuesAt_cons, patch]
    by_cases here : p.memory = m
    · by_cases hit : p.address = a
      · simp [here, hit, cell_store]
      · simp [here, hit, cell_store]
    · simp [here]

end Image

/-- The patches of a sequence of actions in order with the stack they leave, or the
first fault. -/
def replay (symbols : SymbolTable) : List Action → Stack → Except Fault (List Patch × Stack)
  | [], stack => .ok ([], stack)
  | action :: rest, stack =>
    match action.perform symbols stack with
    | (.error fault, _) => .error fault
    | (.ok (.push v), stack) => replay symbols rest (v :: stack)
    | (.ok (.store m a v), stack) =>
      (replay symbols rest stack).map fun r => (⟨m, a, v⟩ :: r.1, r.2)

theorem replay_cons_ok {symbols : SymbolTable} {action : Action} {rest : List Action}
    {stack final : Stack} {patches : List Patch}
    (replayed : replay symbols (action :: rest) stack = .ok (patches, final)) :
    (∃ v left, action.perform symbols stack = (.ok (.push v), left) ∧
      replay symbols rest (v :: left) = .ok (patches, final)) ∨
    ∃ m a v left tail, action.perform symbols stack = (.ok (.store m a v), left) ∧
      patches = ⟨m, a, v⟩ :: tail ∧ replay symbols rest left = .ok (tail, final) := by
  simp only [replay] at replayed
  rcases performed : action.perform symbols stack with ⟨fault | (v | ⟨m, a, v⟩), left⟩
  · simp only [performed] at replayed
    contradiction
  · simp only [performed] at replayed
    exact .inl ⟨v, left, rfl, replayed⟩
  · simp only [performed] at replayed
    cases following : replay symbols rest left with
    | error fault =>
      simp only [following, Except.map] at replayed
      contradiction
    | ok r =>
      simp only [following, Except.map, Except.ok.injEq, Prod.mk.injEq] at replayed
      obtain ⟨rfl, rfl⟩ := replayed
      exact .inr ⟨m, a, v, left, r.1, rfl, rfl, following⟩

theorem replay_cons_error {symbols : SymbolTable} {action : Action} {rest : List Action}
    {stack : Stack} {fault : Fault}
    (failed : replay symbols (action :: rest) stack = .error fault) :
    (∃ left, action.perform symbols stack = (.error fault, left)) ∨
    (∃ v left, action.perform symbols stack = (.ok (.push v), left) ∧
      replay symbols rest (v :: left) = .error fault) ∨
    ∃ m a v left, action.perform symbols stack = (.ok (.store m a v), left) ∧
      replay symbols rest left = .error fault := by
  simp only [replay] at failed
  rcases performed : action.perform symbols stack with ⟨first | (v | ⟨m, a, v⟩), left⟩
  · simp only [performed, Except.error.injEq] at failed
    exact .inl ⟨left, by rw [failed]⟩
  · simp only [performed] at failed
    exact .inr (.inl ⟨v, left, rfl, failed⟩)
  · simp only [performed] at failed
    cases following : replay symbols rest left with
    | error other =>
      simp only [following, Except.map, Except.error.injEq] at failed
      exact .inr (.inr ⟨m, a, v, left, rfl, failed ▸ following⟩)
    | ok r =>
      simp only [following, Except.map] at failed
      contradiction

/-- A sequence is replayed part by part, the second from the stack of the first. -/
theorem replay_append (symbols : SymbolTable) (first second : List Action) (stack : Stack) :
    replay symbols (first ++ second) stack =
      (replay symbols first stack).bind fun r =>
        (replay symbols second r.2).map fun q => (r.1 ++ q.1, q.2) := by
  induction first generalizing stack with
  | nil => cases h : replay symbols second stack <;> simp [replay, Except.bind, Except.map, h]
  | cons action first ih =>
    simp only [List.cons_append, replay]
    rcases action.perform symbols stack with ⟨fault | (v | ⟨m, a, v⟩), left⟩
    · rfl
    · exact ih (v :: left)
    · simp only [ih]
      cases replay symbols first left with
      | error fault => rfl
      | ok r => cases h : replay symbols second r.2 <;> simp [Except.bind, Except.map, h]

end TwoPass
