import TwoPass.Proofs.Patch

/-! The machine of pass 2 against the list of patches. Every call of `step` consumes
one action and has one of three outcomes, and a whole run makes the patches of the
pending actions or stops at their first fault. -/
namespace TwoPass

/-- Only a store has a store as its effect, of the value it finds on top. -/
theorem Action.perform_store {action : Action} {symbols : SymbolTable} {stack left : Stack}
    {m : Memory} {a : Address} {v : Value}
    (performed : action.perform symbols stack = (.ok (.store m a v), left)) :
    action.work = .store m a ∧ stack = v :: left := by
  obtain ⟨work, line⟩ := action
  cases work with
  | literal value => simp [perform] at performed
  | symbol name => cases found : symbols.lookup name line <;> simp [perform, found, Except.map] at performed
  | apply operator swapped =>
    cases operator with
    | unary op => cases stack <;> simp [perform, Stack.pop, Except.map] at performed
    | binary op =>
      obtain _ | ⟨top, _ | ⟨next, stack⟩⟩ := stack
      · simp [perform, Stack.popTwo, Except.bind] at performed
      · simp [perform, Stack.popTwo, Except.bind] at performed
      · simp only [perform, Stack.popTwo, Except.bind, Prod.mk.injEq] at performed
        obtain ⟨effect, -⟩ := performed
        cases result : (if swapped then op.eval top next line else op.eval next top line) <;>
          simp [result, Except.map] at effect
  | store n b =>
    cases stack with
    | nil => simp [perform, Stack.pop, Except.map] at performed
    | cons top stack => simp_all [perform, Stack.pop, Except.map]

theorem Action.perform_push {action : Action} {symbols : SymbolTable} {stack left : Stack} {v : Value}
    (performed : action.perform symbols stack = (.ok (.push v), left)) (m : Memory) (a : Address) :
    action.work ≠ .store m a := by
  intro work
  cases stack <;> simp [perform, work, Stack.pop, Except.map] at performed

namespace Machine

/-- The machine after `k` calls of `step`, whatever they answer. -/
def after : Machine → Nat → Machine
  | machine, 0 => machine
  | machine, k + 1 => machine.step.2.after k

/-- What a call of `step` answers: a fault, or the phase it leaves. -/
def answer (machine : Machine) : Except Fault Phase :=
  match machine.step with
  | (some fault, _) => .error fault
  | (none, next) => .ok next.phase

/-- The values that the pending actions storing to one cell find on top of the stack
when their turn comes, oldest action first. -/
def stored (machine : Machine) (m : Memory) (a : Address) : List Value :=
  (machine.session.pending.mapIdx fun k action =>
    if action.work = .store m a then (machine.after k).stack.head? else none).filterMap id

theorem after_add (machine : Machine) (j k : Nat) :
    machine.after (j + k) = (machine.after j).after k := by
  induction j generalizing machine with
  | zero => simp [after]
  | succ j ih => simpa only [Nat.succ_add, after] using ih machine.step.2

theorem after_succ {machine next : Machine} {answer : Option Fault}
    (stepped : machine.step = (answer, next)) (k : Nat) : machine.after (k + 1) = next.after k := by
  rw [after, stepped]

/-- Everything that a call of `step` can do. -/
inductive Outcome : Machine → Option Fault → Machine → Prop
  | idle (session : Session) (stack : Stack) :
      Outcome ⟨session, stack, .done⟩ none ⟨session, stack, .done⟩
  | finish (sizes : Sizes) (program : Image .program) (data : Image .data) (symbols : SymbolTable)
      (stack : Stack) :
      Outcome ⟨⟨sizes, program, data, symbols, []⟩, stack, .running⟩ none
        ⟨⟨sizes, program, data, .empty, []⟩, stack, .done⟩
  | push (sizes : Sizes) (program : Image .program) (data : Image .data) {symbols : SymbolTable}
      {action : Action} (pending : List Action) {stack left : Stack} {v : Value}
      (performed : action.perform symbols stack = (.ok (.push v), left)) :
      Outcome ⟨⟨sizes, program, data, symbols, action :: pending⟩, stack, .running⟩ none
        ⟨⟨sizes, program, data, symbols, pending⟩, v :: left, .running⟩
  | store (sizes : Sizes) (program : Image .program) (data : Image .data) {symbols : SymbolTable}
      {action : Action} (pending : List Action) {stack left : Stack} {m : Memory} {a : Address} {v : Value}
      (performed : action.perform symbols stack = (.ok (.store m a v), left)) :
      Outcome ⟨⟨sizes, program, data, symbols, action :: pending⟩, stack, .running⟩ none
        ⟨⟨sizes, program.patch ⟨m, a, v⟩, data.patch ⟨m, a, v⟩, symbols, pending⟩, left, .running⟩
  | fault (sizes : Sizes) (program : Image .program) (data : Image .data) {symbols : SymbolTable}
      {action : Action} (pending : List Action) {stack left : Stack} {fault : Fault}
      (performed : action.perform symbols stack = (.error fault, left)) :
      Outcome ⟨⟨sizes, program, data, symbols, action :: pending⟩, stack, .running⟩ (some fault)
        ⟨⟨sizes, program, data, symbols, pending⟩, left, .running⟩

section
variable {sizes : Sizes} {program : Image .program} {data : Image .data} {symbols : SymbolTable}
variable {action : Action} {pending : List Action} {stack left : Stack}

theorem step_push {v : Value} (performed : action.perform symbols stack = (.ok (.push v), left)) :
    step ⟨⟨sizes, program, data, symbols, action :: pending⟩, stack, .running⟩ =
      (none, ⟨⟨sizes, program, data, symbols, pending⟩, v :: left, .running⟩) := by
  simp only [step, performed]

theorem step_store {m : Memory} {a : Address} {v : Value}
    (performed : action.perform symbols stack = (.ok (.store m a v), left)) :
    step ⟨⟨sizes, program, data, symbols, action :: pending⟩, stack, .running⟩ =
      (none, ⟨⟨sizes, program.patch ⟨m, a, v⟩, data.patch ⟨m, a, v⟩, symbols, pending⟩, left,
        .running⟩) := by
  cases m <;> simp [step, performed, Session.store, Image.patch]

theorem step_fault {fault : Fault}
    (performed : action.perform symbols stack = (.error fault, left)) :
    step ⟨⟨sizes, program, data, symbols, action :: pending⟩, stack, .running⟩ =
      (some fault, ⟨⟨sizes, program, data, symbols, pending⟩, left, .running⟩) := by
  simp only [step, performed]

theorem step_outcome {machine next : Machine} {answer : Option Fault}
    (stepped : machine.step = (answer, next)) : Outcome machine answer next := by
  obtain ⟨⟨sizes, program, data, symbols, pending⟩, stack, phase⟩ := machine
  cases phase with
  | done =>
    cases stepped
    exact .idle _ stack
  | running =>
    cases pending with
    | nil =>
      cases stepped
      exact .finish sizes program data symbols stack
    | cons action pending =>
      rcases performed : action.perform symbols stack with ⟨fault | (v | ⟨m, a, v⟩), left⟩
      · cases (step_fault performed).symm.trans stepped
        exact .fault sizes program data pending performed
      · cases (step_push performed).symm.trans stepped
        exact .push sizes program data pending performed
      · cases (step_store performed).symm.trans stepped
        exact .store sizes program data pending performed

/-- A run is one step, and then a run of what is left. -/
theorem run_cons (session : Session) (queued : session.pending = action :: pending) :
    run ⟨session, stack, .running⟩ =
      match step ⟨session, stack, .running⟩ with
      | (some fault, stopped) => (some fault, stopped)
      | (none, next) => next.run := by
  obtain ⟨sizes, program, data, symbols, actions⟩ := session
  simp only at queued
  subst queued
  simp only [run, List.length_cons, steps]
  rcases performed : action.perform symbols stack with ⟨fault | (v | ⟨m, a, v⟩), left⟩
  · simp only [step_fault performed]
  · simp only [step_push performed]
  · simp only [step_store performed]

/-- A run without a fault makes the patches of the pending actions. -/
theorem run_of_replay {patches : List Patch} (sizes : Sizes) (program : Image .program)
    (data : Image .data) (replayed : replay symbols pending stack = .ok (patches, left)) :
    run ⟨⟨sizes, program, data, symbols, pending⟩, stack, .running⟩ =
      (none, ⟨⟨sizes, program.patchAll patches, data.patchAll patches, .empty, []⟩, left, .done⟩) := by
  induction pending generalizing program data stack patches with
  | nil =>
    cases replayed
    rfl
  | cons action pending ih =>
    rw [run_cons _ rfl]
    obtain ⟨v, rest, performed, following⟩ | ⟨m, a, v, rest, tail, performed, rfl, following⟩ :=
      replay_cons_ok replayed
    · simp only [step_push performed]
      exact ih program data following
    · simp only [step_store performed]
      exact ih _ _ following

theorem run_of_fault {fault : Fault} (sizes : Sizes) (program : Image .program)
    (data : Image .data) (failed : replay symbols pending stack = .error fault) :
    (run ⟨⟨sizes, program, data, symbols, pending⟩, stack, .running⟩).1 = some fault := by
  induction pending generalizing program data stack with
  | nil => contradiction
  | cons action pending ih =>
    rw [run_cons _ rfl]
    obtain ⟨rest, performed⟩ | ⟨v, rest, performed, failed⟩ | ⟨m, a, v, rest, performed, failed⟩ :=
      replay_cons_error failed
    · simp only [step_fault performed]
    · simp only [step_push performed]
      exact ih program data failed
    · simp only [step_store performed]
      exact ih _ _ failed

theorem stored_cons (session : Session) (queued : session.pending = action :: pending)
    (consumed : (step ⟨session, stack, .running⟩).2.session.pending = pending)
    (m : Memory) (a : Address) :
    stored ⟨session, stack, .running⟩ m a =
      (if action.work = .store m a then stack.head? else none).toList ++
        (step ⟨session, stack, .running⟩).2.stored m a := by
  simp only [stored, queued, consumed, List.mapIdx_cons, List.filterMap_cons, after, id]
  split <;> simp_all

/-- No store of a replay goes without a value. -/
theorem length_valuesAt_of_replay {patches : List Patch}
    (replayed : replay symbols pending stack = .ok (patches, left)) (m : Memory) (a : Address) :
    (Patch.valuesAt m a patches).length = pending.countP fun action => action.work = .store m a := by
  induction pending generalizing stack patches with
  | nil =>
    cases replayed
    rfl
  | cons action pending ih =>
    obtain ⟨v, rest, performed, following⟩ | ⟨n, b, v, rest, tail, performed, rfl, following⟩ :=
      replay_cons_ok replayed
    · have other := action.perform_push performed m a
      rw [ih following, List.countP_cons_of_neg (by simpa using other)]
    · obtain ⟨work, rfl⟩ := action.perform_store performed
      rw [Patch.valuesAt_cons, List.countP_cons, work, ← ih following]
      by_cases same : n = m ∧ b = a
      · simp [same]
      · simp [same]

/-- The patches of a replay are what its stores find on the stack. -/
theorem stored_of_replay {patches : List Patch} (sizes : Sizes) (program : Image .program)
    (data : Image .data) (replayed : replay symbols pending stack = .ok (patches, left))
    (m : Memory) (a : Address) :
    stored ⟨⟨sizes, program, data, symbols, pending⟩, stack, .running⟩ m a =
      Patch.valuesAt m a patches := by
  induction pending generalizing program data stack patches with
  | nil =>
    cases replayed
    rfl
  | cons action pending ih =>
    obtain ⟨v, rest, performed, following⟩ | ⟨n, b, v, rest, tail, performed, rfl, following⟩ :=
      replay_cons_ok replayed
    · rw [stored_cons _ rfl (by rw [step_push performed]), step_push performed,
        if_neg (action.perform_push performed m a), ih program data following]
      rfl
    · obtain ⟨work, rfl⟩ := action.perform_store performed
      rw [stored_cons _ rfl (by rw [step_store performed]), step_store performed, ih _ _ following,
        work, Patch.valuesAt_cons]
      by_cases same : n = m ∧ b = a
      · simp [same]
      · simp [same]

end
end Machine

/-- Assembling succeeds exactly if the pending actions replay, and then applies
their patches to both memories. -/
theorem Session.resolve_eq_replay (s : Session) :
    s.resolve = (replay s.symbols s.pending []).map fun r =>
      ⟨s.sizes, s.program.patchAll r.1, s.data.patchAll r.1⟩ := by
  obtain ⟨sizes, program, data, symbols, pending⟩ := s
  cases replayed : replay symbols pending [] with
  | error fault =>
    have stopped := Machine.run_of_fault sizes program data replayed
    simp only [resolve, Machine.start, Except.map]
    split
    · simp_all
    · simp_all
  | ok r => simp only [resolve, Machine.start, Machine.run_of_replay _ _ _ replayed, Except.map]

theorem Session.resolve_ok {s : Session} {images : Images} (resolved : s.resolve = .ok images) :
    ∃ patches left, replay s.symbols s.pending [] = .ok (patches, left) ∧
      images = ⟨s.sizes, s.program.patchAll patches, s.data.patchAll patches⟩ := by
  rw [resolve_eq_replay] at resolved
  cases replayed : replay s.symbols s.pending [] with
  | error fault =>
    simp only [replayed, Except.map] at resolved
    contradiction
  | ok r =>
    simp only [replayed, Except.map, Except.ok.injEq] at resolved
    exact ⟨r.1, r.2, rfl, resolved.symm⟩

end TwoPass
