import TwoPass.Expression.Evaluation
import TwoPass.Recording.Action
import TwoPass.Recording.Symbol

/-! Expressions as trees. A front end that cannot evaluate an expression yet defers
the actions of its tree, operands before operators; evaluation visits the tree in
the same order and stops at the first fault. -/
namespace TwoPass

inductive Expr where
  | literal (value : Value) (line : Line)
  | symbol (name : String) (line : Line)
  /-- The flag is recorded with the operator and has no effect. -/
  | unary (op : UnaryOperator) (swapped : Bool) (line : Line) (e : Expr)
  /-- A swapped operator has its right operand evaluated first. -/
  | binary (op : BinaryOperator) (swapped : Bool) (line : Line) (l r : Expr)

namespace Expr

/-- The tree in the order in which a stack evaluates it. -/
def actions : Expr → List Action
  | .literal v line => [⟨.literal v, line⟩]
  | .symbol name line => [⟨.symbol name, line⟩]
  | .unary op swapped line e => e.actions ++ [⟨.apply (.unary op) swapped, line⟩]
  | .binary op false line l r => l.actions ++ r.actions ++ [⟨.apply (.binary op) false, line⟩]
  | .binary op true line l r => r.actions ++ l.actions ++ [⟨.apply (.binary op) true, line⟩]

def eval (symbols : SymbolTable) : Expr → Except Fault Value
  | .literal v _ => .ok v
  | .symbol name line => symbols.lookup name line
  | .unary op _ _ e => do
    let v ← e.eval symbols
    return op.eval v
  | .binary op false line l r => do
    let left ← l.eval symbols
    let right ← r.eval symbols
    op.eval left right line
  | .binary op true line l r => do
    let right ← r.eval symbols
    let left ← l.eval symbols
    op.eval left right line

end Expr
end TwoPass
