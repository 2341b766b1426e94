import TwoPass.Replay.Effect

/-! Pass 2 as a machine that replays the pending actions of a session, oldest
first. Once none is left, the machine gives up the symbols and is done. A failing
action is consumed like any other, so every run ends. -/
namespace TwoPass

inductive Phase where
  | running
  | done
deriving DecidableEq, Repr

structure Machine where
  session : Session
  stack : Stack
  phase : Phase

namespace Machine

def start (session : Session) : Machine :=
  ⟨session, [], .running⟩

/-- Replays the oldest action, or finishes if there is none. -/
def step : Machine → Option Fault × Machine
  | ⟨session, stack, .done⟩ => (none, ⟨session, stack, .done⟩)
  | ⟨⟨sizes, program, data, _, []⟩, stack, .running⟩ =>
    (none, ⟨⟨sizes, program, data, .empty, []⟩, stack, .done⟩)
  | ⟨⟨sizes, program, data, symbols, action :: pending⟩, stack, .running⟩ =>
    match action.perform symbols stack with
    | (.ok (.push v), stack) =>
      (none, ⟨⟨sizes, program, data, symbols, pending⟩, v :: stack, .running⟩)
    | (.ok (.store m a v), stack) =>
      (none, ⟨(⟨sizes, program, data, symbols, pending⟩ : Session).store m a v, stack, .running⟩)
    | (.error fault, stack) =>
      (some fault, ⟨⟨sizes, program, data, symbols, pending⟩, stack, .running⟩)

/-- At most `n` steps, ending early at a fault or once the machine is done. -/
def steps : Nat → Machine → Option Fault × Machine
  | 0, machine => (none, machine)
  | n + 1, machine =>
    match machine.phase with
    | .done => (none, machine)
    | .running =>
      match machine.step with
      | (some fault, machine) => (some fault, machine)
      | (none, machine) => steps n machine

/-- Steps until the machine is done or an action fails. One step for every pending
action and one to finish are always enough. -/
def run (machine : Machine) : Option Fault × Machine :=
  machine.steps (machine.session.pending.length + 1)

inductive Command where
  | step
  | run
deriving DecidableEq, Repr

def obey (machine : Machine) : Command → Option Fault × Machine
  | .step => machine.step
  | .run => machine.run

end Machine
end TwoPass
