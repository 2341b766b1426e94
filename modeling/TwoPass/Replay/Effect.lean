import TwoPass.Expression.Evaluation
import TwoPass.Recording.Session

/-! What one action does with the stack. The operands are gone from the stack
whether the action succeeds or not, and a stack with too few values is emptied. -/
namespace TwoPass

/-- The values of pass 2, topmost first. -/
abbrev Stack := List Value

def Stack.pop (line : Line) : Stack → Except Fault Value × Stack
  | [] => (.error (.stackUnderflow line), [])
  | v :: rest => (.ok v, rest)

/-- Takes two values, the topmost one first. -/
def Stack.popTwo (line : Line) : Stack → Except Fault (Value × Value) × Stack
  | top :: next :: rest => (.ok (top, next), rest)
  | _ => (.error (.stackUnderflow line), [])

/-- What remains to be done once an action has its operands. -/
inductive Effect where
  | push (value : Value)
  | store (memory : Memory) (address : Address) (value : Value)
deriving DecidableEq

/-- The effect of an action, and the stack without its operands. -/
def Action.perform (a : Action) (symbols : SymbolTable) (stack : Stack) :
    Except Fault Effect × Stack :=
  match a.work with
  | .literal v => (.ok (.push v), stack)
  | .symbol name => ((symbols.lookup name a.line).map .push, stack)
  | .apply (.unary op) _ =>
    let (operand, stack) := stack.pop a.line
    (operand.map fun v => .push (op.eval v), stack)
  | .apply (.binary op) swapped =>
    let (operands, stack) := stack.popTwo a.line
    (operands.bind fun (top, next) =>
      (if swapped then op.eval top next a.line else op.eval next top a.line).map .push, stack)
  | .store m address =>
    let (operand, stack) := stack.pop a.line
    (operand.map (.store m address), stack)

end TwoPass
