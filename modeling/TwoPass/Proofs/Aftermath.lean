import TwoPass.Proofs.Failure
import TwoPass.Proofs.History
import TwoPass.Proofs.Progress

/-! What a failed replay leaves behind. A fault costs the session one action and the stack the
operands of that action; everything else stays, so that the next command goes on behind it. -/
namespace TwoPass

/-- The stack before a fault and after it. An operator has taken its operands before it
fails, and a stack with too few of them is emptied. -/
inductive Fault.Leaves : Fault → Stack → Stack → Prop
  | undefined (name : String) (line : Line) (stack : Stack) :
      Leaves (.undefinedSymbol name line) stack stack
  | underflow (line : Line) (stack : Stack) : Leaves (.stackUnderflow line) stack []
  | zeroDivisor (op : BinaryOperator) (line : Line) (top below : Value) (left : Stack) :
      Leaves (.divisionByZero op line) (top :: below :: left) left
  | noPower (base exponent : Value) (line : Line) (top below : Value) (left : Stack) :
      Leaves (.exponentOverflow base exponent line) (top :: below :: left) left

theorem Stack.of_operands? {stack : Stack} {swapped : Bool} {l r : Value}
    (operands : stack.operands? swapped = some (l, r)) :
    ∃ top below, stack = top :: below :: stack.drop 2 := by
  obtain _ | ⟨top, _ | ⟨below, left⟩⟩ := stack
  · contradiction
  · contradiction
  · exact ⟨top, below, rfl⟩

theorem Action.leaves_of_perform {action : Action} {symbols : SymbolTable} {stack left : Stack}
    {fault : Fault} (performed : action.perform symbols stack = (.error fault, left)) :
    fault.Leaves stack left := by
  have rest : left = stack.drop action.work.arity := by
    rw [← action.perform_stack symbols stack, performed]
  obtain ⟨short, rfl⟩ | ⟨-, rejected⟩ := perform_fault (congrArg Prod.fst performed)
  · rw [rest, List.drop_eq_nil_of_le (Nat.le_of_lt short)]
    exact .underflow _ _
  · subst rest
    cases rejected with
    | undefined => exact .undefined _ _ _
    | zeroDivisor _ operands =>
      obtain ⟨top, below, eq⟩ := Stack.of_operands? operands
      rw [eq]
      exact .zeroDivisor _ _ _ _ _
    | noPower operands =>
      obtain ⟨top, below, eq⟩ := Stack.of_operands? operands
      rw [eq]
      exact .noPower _ _ _ _ _ _

namespace Machine
variable {machine next : Machine} {fault : Fault}

theorem pending_step (machine : Machine) :
    machine.step.2.session.pending <:+ machine.session.pending := by
  rcases stepped : machine.step with ⟨answer, next⟩
  cases step_outcome stepped with
  | idle | finish => exact List.suffix_refl _
  | push | store | fault => exact List.suffix_cons _ _

/-- A step that fails takes its action from the session and nothing else. -/
theorem action_of_step (stepped : machine.step = (some fault, next)) :
    machine.phase = .running ∧ next.phase = .running ∧
      next.session = { machine.session with pending := next.session.pending } ∧
      ∃ action, machine.session.pending = action :: next.session.pending ∧
        action.perform machine.session.symbols machine.stack = (.error fault, next.stack) := by
  cases step_outcome stepped with
  | fault _ _ _ pending performed => exact ⟨rfl, rfl, rfl, _, rfl, performed⟩

theorem run_of_step (stepped : machine.step = (some fault, next)) : machine.run = (some fault, next) := by
  cases step_outcome stepped with
  | fault => rw [run_cons _ rfl, stepped]

/-- A run that fails has stepped up to the first action that fails. -/
theorem stop_of_run (failed : machine.run = (some fault, next)) :
    ∃ k < machine.session.pending.length,
      machine.Proceeds k (machine.after k) ∧ (machine.after k).step = (some fault, next) := by
  obtain ⟨⟨sizes, program, data, symbols, pending⟩, stack, phase⟩ := machine
  cases phase with
  | done => cases failed
  | running =>
    cases replayed : replay symbols pending stack with
    | ok r =>
      rw [run_of_replay sizes program data replayed] at failed
      cases failed
    | error first =>
      -- The steps up to the failing one do not change where the run stops.
      obtain ⟨k, below, fails⟩ := (replay_eq_error_iff sizes program data first).mp replayed
      have proceeds : Proceeds _ k _ := ⟨fails.running, rfl⟩
      refine ⟨k, below, proceeds, ?_⟩
      have answered := fails.failed
      rcases stepped : (after _ k).step with ⟨_ | other, stopped⟩
      · simp only [answer, stepped] at answered
        contradiction
      · rw [proceeds.run_eq, run_of_step stepped] at failed
        rw [failed]

/-- Where a run that fails stops: behind the failing action, with the patches of all actions
before it. -/
theorem state_of_run (failed : machine.run = (some fault, next)) :
    ∃ k < machine.session.pending.length, ∃ patches left,
      machine.FailsFirst k fault ∧ (machine.after k).step = (some fault, next) ∧
      replay machine.session.symbols (machine.session.pending.take k) machine.stack =
        .ok (patches, left) ∧
      next = ⟨⟨machine.session.sizes, machine.session.program.patchAll patches,
        machine.session.data.patchAll patches, machine.session.symbols,
        machine.session.pending.drop (k + 1)⟩, next.stack, .running⟩ := by
  obtain ⟨k, below, proceeds, stepped⟩ := stop_of_run failed
  obtain ⟨⟨sizes, program, data, symbols, pending⟩, stack, phase⟩ := machine
  cases phase with
  | done => cases failed
  | running =>
    obtain ⟨patches, left, replayed, reached⟩ := proceeds.replayed
    refine ⟨k, below, patches, left, ⟨proceeds.running, by rw [answer, stepped]⟩, stepped, replayed, ?_⟩
    rw [reached] at stepped
    obtain ⟨-, running, session, action, queued, -⟩ := action_of_step stepped
    have remaining : next.session.pending = pending.drop (k + 1) := by
      rw [← List.tail_drop]
      exact (congrArg List.tail queued).symm
    obtain ⟨session', stack', phase'⟩ := next
    simp only at running session remaining
    rw [running, session, remaining]

end Machine

/-- What a failed replay leaves behind, whatever the commands before it were answered. The
actions still pending are the last ones of the queue. A failing step costs one action and
its operands. A failing run has made the patches of all actions before the failing one, and
the next run replays the actions behind it from the stack that is left. -/
theorem Machine.failure_leaves (s : Session) (commands : List Machine.Command) :
    let driver := (Machine.start s).obeyAll commands
    let queue := driver.session.pending
    let symbols := driver.session.symbols
    queue <:+ s.pending ∧
    (∀ fault next, driver.step = (some fault, next) →
      driver.phase = .running ∧ next.phase = .running ∧
      next.session = { driver.session with pending := next.session.pending } ∧
      (∃ action, queue = action :: next.session.pending ∧
        action.perform symbols driver.stack = (.error fault, next.stack)) ∧
      fault.Leaves driver.stack next.stack) ∧
    ∀ fault next, driver.run = (some fault, next) →
      ∃ k < queue.length, driver.FailsFirst k fault ∧ (driver.after k).step = (some fault, next) ∧
      ∃ front, run ⟨{ driver.session with pending := queue.take k }, driver.stack, .running⟩ =
          (none, front) ∧
        next = ⟨{ driver.session with
          program := front.session.program
          data := front.session.data
          pending := queue.drop (k + 1) }, next.stack, .running⟩ ∧
        (∀ later, replay symbols (queue.drop (k + 1)) next.stack = .error later →
          next.run.1 = some later) ∧
        ∀ patches left, replay symbols (queue.drop (k + 1)) next.stack = .ok (patches, left) →
          next.run = (none, ⟨⟨driver.session.sizes, front.session.program.patchAll patches,
            front.session.data.patchAll patches, .empty, []⟩, left, .done⟩) := by
  intro driver queue symbols
  refine ⟨?_, ?_, ?_⟩
  · exact obeyAll_keep (P := (·.session.pending <:+ s.pending))
      (fun machine rest => machine.pending_step.trans rest) commands (List.suffix_refl _)
  · intro fault next stepped
    obtain ⟨before, after, session, action, queued, performed⟩ := action_of_step stepped
    exact ⟨before, after, session, ⟨action, queued, performed⟩, action.leaves_of_perform performed⟩
  · intro fault next failed
    obtain ⟨k, below, patches, left, first, stepped, replayed, stopped⟩ := state_of_run failed
    refine ⟨k, below, first, stepped, _, run_of_replay _ _ _ replayed, stopped, ?_, ?_⟩
    · intro later refused
      rw [stopped]
      exact run_of_fault _ _ _ refused
    · intro patches left resumed
      rw [stopped]
      exact run_of_replay _ _ _ resumed

/-- Two symbols without a definition, among words for two addresses. -/
def interrupted : Session :=
  { Session.start {} with
    pending := [⟨.literal 7, 1⟩, ⟨.store .data ⟨40, by decide⟩, 1⟩, ⟨.literal 1, 2⟩, ⟨.symbol "x", 2⟩,
      ⟨.symbol "y", 3⟩, ⟨.store .data ⟨41, by decide⟩, 3⟩] }

/-- The second run fails at the first action that the one before it left, and the third run is
done with all others. -/
theorem Machine.failure_leaves_interrupted :
    (start interrupted).run.1 = some (.undefinedSymbol "x" 2) ∧
    let driver := (start interrupted).obeyAll [.run]
    driver.session.pending <:+ interrupted.pending ∧
    ∃ next, driver.step = (some (.undefinedSymbol "y" 3), next) ∧
      driver.run = (some (.undefinedSymbol "y" 3), next) ∧
      (Fault.undefinedSymbol "y" 3).Leaves driver.stack next.stack ∧
      next.session.pending = [⟨.store .data 41, 3⟩] ∧
      next.run = (none, ⟨⟨{}, interrupted.program, (interrupted.data.store 40 7).store 41 1, .empty, []⟩, [],
        .done⟩) := by
  refine ⟨rfl, ?_⟩
  obtain ⟨queue, stepping, running⟩ := failure_leaves interrupted [.run]
  generalize reached : (start interrupted).obeyAll [.run] = driver at queue stepping running ⊢
  have state : driver = ⟨⟨{}, interrupted.program, interrupted.data.store 40 7, .empty,
      [⟨.symbol "y", 3⟩, ⟨.store .data 41, 3⟩]⟩, [1], .running⟩ := reached.symm
  subst state
  obtain ⟨-, -, -, -, leaves⟩ := stepping (.undefinedSymbol "y" 3) _ rfl
  obtain ⟨k, below, -, -, front, fronted, stopped, -, resumed⟩ := running (.undefinedSymbol "y" 3) _ rfl
  refine ⟨queue, _, rfl, rfl, leaves, rfl, ?_⟩
  cases k with
  | zero =>
    cases fronted
    exact resumed [⟨.data, 41, 1⟩] [] rfl
  | succ k =>
    have left := congrArg (fun machine => machine.session.pending.length) stopped
    simp at left

end TwoPass
