import TwoPass.Journal.Operations
import TwoPass.Proofs.Replay

/-! The journal of a replay. A run reports what its steps report, in their order, and with
them every action that it takes from the queue. -/
namespace TwoPass

/-- The action that an event announces. -/
def Event.announced? : Event → Option Action
  | .replaying action => some action
  | _ => none

namespace Machine

/-- Steps of a machine that is running, with the machines they start from. -/
inductive Trace : Machine → List Machine → Option Fault → Machine → Prop
  | nil {machine : Machine} : Trace machine [] none machine
  | stop {machine last : Machine} {fault : Fault} (running : machine.phase = .running)
      (stepped : machine.step = (some fault, last)) : Trace machine [machine] (some fault) last
  | cons {machine next last : Machine} {visited : List Machine} {answered : Option Fault}
      (running : machine.phase = .running) (stepped : machine.step = (none, next))
      (rest : Trace next visited answered last) : Trace machine (machine :: visited) answered last

/-- The events of several steps are those of the machines that the steps start from. -/
theorem exists_trace (n : Nat) (machine : Machine) :
    ∃ visited, machine.Trace visited (machine.steps n).1 (machine.steps n).2 ∧
      ∀ seen, machine.stepsEvents n seen = (visited.flatMap stepEvents).reverse ++ seen := by
  induction n generalizing machine with
  | zero => exact ⟨[], .nil, fun seen => rfl⟩
  | succ n ih =>
    cases phase : machine.phase with
    | done =>
      simp only [steps, stepsEvents, phase]
      exact ⟨[], .nil, fun seen => rfl⟩
    | running =>
      rcases stepped : machine.step with ⟨_ | fault, next⟩
      · obtain ⟨visited, trace, events⟩ := ih next
        simp only [steps, stepsEvents, phase, stepped, events]
        exact ⟨machine :: visited, .cons phase stepped trace, fun seen => by simp⟩
      · simp only [steps, stepsEvents, phase, stepped]
        exact ⟨[machine], .stop phase stepped, fun seen => by simp⟩

theorem exists_trace_run (machine : Machine) :
    ∃ visited, machine.Trace visited machine.run.1 machine.run.2 ∧
      machine.runEvents = visited.flatMap stepEvents := by
  obtain ⟨visited, trace, events⟩ := machine.exists_trace (machine.session.pending.length + 1)
  refine ⟨visited, trace, ?_⟩
  rw [runEvents, events, List.append_nil, List.reverse_reverse]

theorem announced_effectEvents (session : Session) (effect : Except Fault Effect) :
    (effectEvents session effect).filterMap Event.announced? = [] := by
  unfold effectEvents
  split <;> rfl

/-- A step announces exactly the action that it takes. -/
theorem pending_eq_step (machine : Machine) (running : machine.phase = .running) :
    machine.session.pending =
      machine.stepEvents.filterMap Event.announced? ++ machine.step.2.session.pending := by
  rcases stepped : machine.step with ⟨answered, next⟩
  cases step_outcome stepped with
  | idle => contradiction
  | finish =>
    simp only [stepEvents]
    split <;> rfl
  | push | store | fault => simp [stepEvents, Event.announced?, announced_effectEvents]

theorem Trace.pending_eq {machine last : Machine} {visited : List Machine} {answered : Option Fault}
    (trace : machine.Trace visited answered last) :
    machine.session.pending =
      (visited.flatMap stepEvents).filterMap Event.announced? ++ last.session.pending := by
  induction trace with
  | nil => rfl
  | @stop machine _ _ running stepped =>
    have first := machine.pending_eq_step running
    rw [stepped] at first
    rwa [List.flatMap_singleton]
  | @cons machine _ _ _ _ running stepped rest ih =>
    have first := machine.pending_eq_step running
    rw [stepped, ih] at first
    rw [List.flatMap_cons, List.filterMap_append, List.append_assoc]
    exact first

/-- A run announces every action that it takes from the queue, and no other. -/
theorem pending_eq_run (machine : Machine) :
    machine.session.pending =
      machine.runEvents.filterMap Event.announced? ++ machine.run.2.session.pending := by
  obtain ⟨visited, trace, events⟩ := machine.exists_trace_run
  rw [events]
  exact trace.pending_eq

end Machine

end TwoPass
