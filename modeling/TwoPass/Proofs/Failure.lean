import Mathlib.Data.Nat.Find
import TwoPass.Proofs.Progress

/-! When pass 2 fails. The first action that fails decides, and whether it lacks operands
follows from the numbers of values that the actions before it push and pop. -/
namespace TwoPass

/-- The number of values that a sequence of actions leaves, if it goes well. -/
def depth : List Action → Int
  | [] => 0
  | action :: rest => action.work.gain + depth rest

@[simp] theorem depth_nil : depth [] = 0 := rfl

@[simp] theorem depth_cons (action : Action) (rest : List Action) :
    depth (action :: rest) = action.work.gain + depth rest := rfl

/-- A replay leaves as many values as the balance of its actions says. -/
theorem height_of_replay {symbols : SymbolTable} {actions : List Action} {stack left : Stack}
    {patches : List Patch} (replayed : replay symbols actions stack = .ok (patches, left)) :
    (left.length : Int) = stack.length + depth actions := by
  induction actions generalizing stack patches with
  | nil =>
    cases replayed
    simp
  | cons action actions ih =>
    obtain ⟨v, rest, performed, following⟩ | ⟨m, a, v, rest, tail, performed, rfl, following⟩ :=
      replay_cons_ok replayed
    · have height := Action.height_of_push performed
      rw [ih following, height, depth_cons]
      omega
    · have height := Action.height_of_store performed
      rw [ih following, height, depth_cons]
      omega

namespace Machine

/-- The `k`-th call of `step`, counted from 0, is the first to fail. -/
structure FailsFirst (machine : Machine) (k : Nat) (fault : Fault) : Prop where
  running : ∀ j < k, (machine.after j).answer = .ok .running
  failed : (machine.after k).answer = .error fault

theorem failsFirst_zero (machine : Machine) (fault : Fault) :
    machine.FailsFirst 0 fault ↔ machine.answer = .error fault :=
  ⟨fun first => first.failed, fun failed => ⟨fun _ none => absurd none (Nat.not_lt_zero _), failed⟩⟩

theorem failsFirst_succ {machine next : Machine} (stepped : machine.step = (none, next))
    (running : next.phase = .running) (k : Nat) (fault : Fault) :
    machine.FailsFirst (k + 1) fault ↔ next.FailsFirst k fault := by
  have later := after_succ stepped
  constructor
  · intro first
    refine ⟨fun j below => ?_, ?_⟩
    · rw [← later]
      exact first.running (j + 1) (Nat.succ_lt_succ below)
    · rw [← later]
      exact first.failed
  · intro first
    refine ⟨fun j below => ?_, ?_⟩
    · cases j with
      | zero => simp only [after, answer, stepped, running]
      | succ j =>
        rw [later]
        exact first.running j (Nat.lt_of_succ_lt_succ below)
    · rw [later]
      exact first.failed

section
variable {symbols : SymbolTable} {pending : List Action} {stack : Stack}

/-- With an action pending, a step fails as the action does, or it consumes the action:
the stack changes its height by the action's gain, and the rest fails as the whole does. -/
theorem step_cons (sizes : Sizes) (program : Image .program) (data : Image .data)
    (symbols : SymbolTable) (action : Action) (pending : List Action) (stack : Stack) :
    (∃ fault, (action.perform symbols stack).1 = .error fault ∧
      answer ⟨⟨sizes, program, data, symbols, action :: pending⟩, stack, .running⟩ =
        .error fault ∧
      replay symbols (action :: pending) stack = .error fault) ∨
    ∃ program' data' stack',
      step ⟨⟨sizes, program, data, symbols, action :: pending⟩, stack, .running⟩ =
        (none, ⟨⟨sizes, program', data', symbols, pending⟩, stack', .running⟩) ∧
      (∃ effect, (action.perform symbols stack).1 = .ok effect) ∧
      (stack'.length : Int) = stack.length + action.work.gain ∧
      ∀ fault, replay symbols (action :: pending) stack = .error fault ↔
        replay symbols pending stack' = .error fault := by
  rcases performed : action.perform symbols stack with ⟨fault | (v | ⟨m, a, v⟩), left⟩
  · refine .inl ⟨fault, rfl, ?_, ?_⟩
    · simp only [answer, step_fault performed]
    · simp only [replay, performed]
  · refine .inr ⟨_, _, _, step_push performed, ⟨_, rfl⟩, Action.height_of_push performed, ?_⟩
    intro fault
    simp only [replay, performed]
  · refine .inr ⟨_, _, _, step_store performed, ⟨_, rfl⟩, Action.height_of_store performed, ?_⟩
    intro fault
    simp only [replay, performed]
    cases replay symbols pending left <;> simp [Except.map]

theorem answer_eq_error_iff (sizes : Sizes) (program : Image .program) (data : Image .data)
    (symbols : SymbolTable) (action : Action) (pending : List Action) (stack : Stack) (fault : Fault) :
    answer ⟨⟨sizes, program, data, symbols, action :: pending⟩, stack, .running⟩ = .error fault ↔
      (action.perform symbols stack).1 = .error fault := by
  obtain ⟨first, performed, answered, -⟩ | ⟨_, _, _, stepped, ⟨effect, performed⟩, -⟩ :=
    step_cons sizes program data symbols action pending stack
  · rw [answered, performed]
    simp only [Except.error.injEq]
  · rw [answer, stepped, performed]
    simp only [reduceCtorEq]

/-- While the machine is running, only its memories and its stack change, and the height
of the stack is the balance of the actions replayed. -/
theorem after_of_running {k : Nat} (sizes : Sizes) (program : Image .program) (data : Image .data)
    (running : ∀ j < k,
      (after ⟨⟨sizes, program, data, symbols, pending⟩, stack, .running⟩ j).answer = .ok .running) :
    ∃ program' data' stack',
      after ⟨⟨sizes, program, data, symbols, pending⟩, stack, .running⟩ k =
        ⟨⟨sizes, program', data', symbols, pending.drop k⟩, stack', .running⟩ ∧
      (stack'.length : Int) = stack.length + depth (pending.take k) := by
  obtain ⟨patches, left, replayed, reached⟩ := Proceeds.replayed ⟨running, rfl⟩
  exact ⟨_, _, left, reached, height_of_replay replayed⟩

/-- If any action fails, one of them is the first to fail. -/
theorem exists_failsFirst {k : Nat} {fault : Fault} (sizes : Sizes) (program : Image .program)
    (data : Image .data) (below : k < pending.length)
    (failed : (after ⟨⟨sizes, program, data, symbols, pending⟩, stack, .running⟩ k).answer =
      .error fault) :
    ∃ j < pending.length, ∃ first,
      FailsFirst ⟨⟨sizes, program, data, symbols, pending⟩, stack, .running⟩ j first := by
  classical
  have fails : ∃ j first,
      (after ⟨⟨sizes, program, data, symbols, pending⟩, stack, .running⟩ j).answer = .error first :=
    ⟨k, fault, failed⟩
  -- Before the least such step none fails, so all of them answer that the machine is running.
  obtain ⟨first, refused⟩ := Nat.find_spec fails
  have inside : Nat.find fails < pending.length :=
    Nat.lt_of_le_of_lt (Nat.find_min' fails ⟨fault, failed⟩) below
  have proceeds := proceeds_of_succeed rfl (Nat.le_of_lt inside) fun j early other refused =>
    Nat.find_min fails early ⟨other, refused⟩
  exact ⟨Nat.find fails, inside, first, proceeds.running, refused⟩

/-- A replay stops at the first action that fails, with its fault. -/
theorem replay_eq_error_iff (sizes : Sizes) (program : Image .program) (data : Image .data)
    (fault : Fault) :
    replay symbols pending stack = .error fault ↔ ∃ k < pending.length,
      FailsFirst ⟨⟨sizes, program, data, symbols, pending⟩, stack, .running⟩ k fault := by
  induction pending generalizing program data stack with
  | nil =>
    constructor
    · intro failed
      contradiction
    · rintro ⟨k, below, -⟩
      contradiction
  | cons action pending ih =>
    obtain ⟨first, -, refused, replayed⟩ | ⟨program', data', stack', stepped, -, -, rest⟩ :=
      step_cons sizes program data symbols action pending stack
    · rw [replayed, Except.error.injEq]
      constructor
      · rintro rfl
        exact ⟨0, Nat.succ_pos _, (failsFirst_zero _ _).mpr refused⟩
      · rintro ⟨k, -, fails⟩
        cases k with
        | zero => exact Except.error.inj (refused.symm.trans fails.failed)
        | succ k =>
          have running := fails.running 0 (Nat.succ_pos k)
          rw [after, refused] at running
          contradiction
    · rw [rest, ih program' data']
      constructor
      · rintro ⟨k, below, fails⟩
        exact ⟨k + 1, Nat.succ_lt_succ below, (failsFirst_succ stepped rfl k fault).mpr fails⟩
      · rintro ⟨k, below, fails⟩
        cases k with
        | zero =>
          have failed := fails.failed
          simp only [after, answer, stepped] at failed
          contradiction
        | succ k =>
          exact ⟨k, Nat.lt_of_succ_lt_succ below, (failsFirst_succ stepped rfl k fault).mp fails⟩

end
end Machine

namespace Session

theorem resolve_eq_error_iff (s : Session) (fault : Fault) :
    s.resolve = .error fault ↔
      ∃ k < s.pending.length, (Machine.start s).FailsFirst k fault := by
  obtain ⟨sizes, program, data, symbols, pending⟩ := s
  rw [Machine.start, ← Machine.replay_eq_error_iff, resolve_eq_replay]
  simp only
  cases replay symbols pending [] <;> simp [Except.map]

/-- Up to the first fault, the height of the stack and the answer to the next action
follow from the actions. -/
theorem answer_of_running (s : Session) {k : Nat} {action : Action}
    (queued : s.pending[k]? = some action)
    (running : ∀ j < k, ((Machine.start s).after j).answer = .ok .running) :
    (((Machine.start s).after k).stack.length : Int) = depth (s.pending.take k) ∧
      ∀ fault, ((Machine.start s).after k).answer = .error fault ↔
        (action.perform s.symbols ((Machine.start s).after k).stack).1 = .error fault := by
  obtain ⟨sizes, program, data, symbols, pending⟩ := s
  simp only at queued
  obtain ⟨below, rfl⟩ := List.getElem?_eq_some_iff.mp queued
  obtain ⟨program', data', stack, reached, height⟩ :=
    Machine.after_of_running sizes program data running
  simp only [Machine.start, reached]
  refine ⟨by simpa using height, fun fault => ?_⟩
  rw [List.drop_eq_getElem_cons below, Machine.answer_eq_error_iff]

/-- Pass 2 has no other faults than those of its actions. -/
theorem fault_of_resolve {s : Session} {fault : Fault} (failed : s.resolve = .error fault) :
    ∃ action ∈ s.pending, ∃ stack, fault = .stackUnderflow action.line ∨
      Action.Rejected s.symbols stack action fault := by
  obtain ⟨k, below, first⟩ := (s.resolve_eq_error_iff fault).mp failed
  have queued := List.getElem?_eq_getElem below
  have performed := ((s.answer_of_running queued first.running).2 fault).mp first.failed
  refine ⟨s.pending[k], List.getElem_mem below, ((Machine.start s).after k).stack, ?_⟩
  obtain ⟨-, lack⟩ | ⟨-, rejected⟩ := Action.perform_fault performed
  · exact .inl lack
  · exact .inr rejected

/-- How pass 2 fails. The result is the fault of the first action that fails, on the line
of that action. It lacks operands exactly if the actions before it leave fewer values
than it needs, whatever the values are, and only then is the fault internal; otherwise
a symbol is unknown, a divisor is zero or a power is out of range. Without a fault, the
balance of all actions is left on the stack. -/
theorem resolve_failure_law (s : Session) :
    let driver := Machine.start s
    (∀ fault, s.resolve = .error fault ↔
      ∃ k < s.pending.length, driver.FailsFirst k fault) ∧
    ((∃ fault, s.resolve = .error fault) ↔
      ∃ k < s.pending.length, ∃ fault, (driver.after k).answer = .error fault) ∧
    (∀ k action, s.pending[k]? = some action →
      (∀ j < k, (driver.after j).answer = .ok .running) →
      let short := depth (s.pending.take k) < action.work.arity
      ((driver.after k).answer = .error (.stackUnderflow action.line) ↔ short) ∧
      (¬short → ∀ fault, (driver.after k).answer = .error fault ↔
        Action.Rejected s.symbols (driver.after k).stack action fault) ∧
      ∀ fault, (driver.after k).answer = .error fault →
        fault.line = some action.line ∧ (fault.isInternal = true ↔ short)) ∧
    (∀ fault, s.resolve = .error fault →
      (∀ m capacity line, fault ≠ .memoryOverflow m capacity line) ∧
      (∀ m a line, fault ≠ .collision m a line) ∧
      (∀ m requested, fault ≠ .invalidSize m requested) ∧
      ∀ path cause, fault ≠ .outputFile path cause) ∧
    ∀ images, s.resolve = .ok images →
      driver.run.1 = none ∧ driver.run.2.phase = .done ∧
      (driver.run.2.stack.length : Int) = depth s.pending := by
  intro driver
  refine ⟨s.resolve_eq_error_iff, ?_, ?_, ?_, ?_⟩
  · constructor
    · rintro ⟨fault, failed⟩
      obtain ⟨k, below, first⟩ := (s.resolve_eq_error_iff fault).mp failed
      exact ⟨k, below, fault, first.failed⟩
    · rintro ⟨k, below, fault, failed⟩
      obtain ⟨j, inside, first, fails⟩ :=
        Machine.exists_failsFirst s.sizes s.program s.data below failed
      exact ⟨first, (s.resolve_eq_error_iff first).mpr ⟨j, inside, fails⟩⟩
  · intro k action queued running short
    obtain ⟨height, answered⟩ := s.answer_of_running queued running
    have low : short ↔ (driver.after k).stack.length < action.work.arity := by
      simp only [short, ← height, driver]
      omega
    refine ⟨?_, ?_, ?_⟩
    · rw [answered, low]
      exact action.perform_underflow_iff s.symbols _
    · intro enough fault
      rw [low, Nat.not_lt] at enough
      rw [answered]
      exact Action.perform_eq_error_iff enough s.symbols fault
    · intro fault failed
      rw [low]
      exact Action.line_of_perform ((answered fault).mp failed)
  · intro fault failed
    obtain ⟨action, -, stack, rfl | rejected⟩ := fault_of_resolve failed
    · simp
    · cases rejected <;> simp
  · intro images resolved
    obtain ⟨patches, left, replayed, -⟩ := resolve_ok resolved
    have height := height_of_replay replayed
    have finished := Machine.run_of_replay s.sizes s.program s.data replayed
    simp only [driver, Machine.start]
    rw [finished]
    exact ⟨rfl, rfl, by simpa using height⟩

end Session
end TwoPass
