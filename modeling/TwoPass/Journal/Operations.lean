import TwoPass.Journal.Event
import TwoPass.Recording.Call

/-! Which events an operation reports. They are determined by the state in which
it starts, so the operations themselves carry no journal. -/
namespace TwoPass

def Image.appendEvents {m : Memory} (image : Image m) (v : Value) (line : Line) : List Event :=
  match image.next line with
  | .ok a => [.placed m a (.placed m v) line]
  | .error _ => []

def Image.storeEvents {m : Memory} (image : Image m) (a : Address) (v : Value) : List Event :=
  [.patched m a (.patched m (image.cell a) v) v]

/-- A definition that does not come into effect is reported as such first. -/
def SymbolTable.insertEvents (t : SymbolTable) (s : Symbol) : List Event :=
  if (t.find? s.name).isSome then [.redefined s, .defined s] else [.defined s]

def SymbolTable.releaseEvents (t : SymbolTable) : List Event :=
  [.released t.size]

def Stack.popEvents (stack : Stack) (line : Line) : List Event :=
  match stack with
  | [] => [.underflow line]
  | _ => []

def Session.callEvents (s : Session) : Call → List Event
  | .place m v line => (s.image m).appendEvents v line
  | .define symbol => s.symbols.insertEvents symbol
  | .defer action => [.deferred action]

namespace Machine

/-- What follows from an action once it is known whether it has its operands. -/
def effectEvents (session : Session) : Except Fault Effect → List Event
  | .ok (.store m a v) => (session.image m).storeEvents a v
  | .error (.stackUnderflow line) => [.underflow line]
  | _ => []

def stepEvents (machine : Machine) : List Event :=
  match machine.phase, machine.session.pending with
  | .done, _ => []
  | .running, [] =>
    (if machine.stack.isEmpty then [] else [.leftOver machine.stack.reverse]) ++
      machine.session.symbols.releaseEvents
  | .running, action :: _ =>
    .replaying action ::
      effectEvents machine.session (action.perform machine.session.symbols machine.stack).1

/-- The events of at most `n` steps, after those already seen, newest first. -/
def stepsEvents : Nat → Machine → List Event → List Event
  | 0, _, seen => seen
  | n + 1, machine, seen =>
    match machine.phase with
    | .done => seen
    | .running =>
      let seen := machine.stepEvents.reverse ++ seen
      match machine.step with
      | (some _, _) => seen
      | (none, machine) => stepsEvents n machine seen

def runEvents (machine : Machine) : List Event :=
  (stepsEvents (machine.session.pending.length + 1) machine []).reverse

def obeyEvents (machine : Machine) : Command → List Event
  | .step => machine.stepEvents
  | .run => machine.runEvents

end Machine

def Session.resolveEvents (s : Session) : List Event :=
  .recorded :: (Machine.start s).runEvents ++
    match s.resolve with
    | .ok images => [.replayed s.pending.length, .measured images.usage]
    | .error _ => []

/-- A state with the events reported on the way to it, newest first. -/
structure Journaled (σ : Type) where
  state : σ
  events : List Event := []

def Journaled.perform {σ α : Type} (events : σ → List Event) (operation : σ → α × σ) :
    Journaled σ → α × Journaled σ
  | ⟨state, seen⟩ =>
    let seen := (events state).reverse ++ seen
    let (result, state) := operation state
    (result, ⟨state, seen⟩)

end TwoPass
