import TwoPass.Expression.Operator
import TwoPass.Numeral
import TwoPass.Storage.Memory

/-! Work that pass 1 defers until every symbol is known. A sequence of actions is
a program for a stack of values: pushes, operators on the topmost values, and
stores of the topmost value to a memory. -/
namespace TwoPass

inductive Work where
  | literal (value : Value)
  | symbol (name : String)
  /-- A binary operator finds its right operand on top of the stack, or its left
  one if swapped. Unary operators ignore the flag. -/
  | apply (operator : Operator) (swapped : Bool)
  | store (memory : Memory) (address : Address)
deriving DecidableEq

structure Action where
  work : Work
  line : Line
deriving DecidableEq

def Work.text : Work → String
  | .literal v => "push 0x" ++ Numeral.lowerHex 1 v.toNat
  | .symbol name => "push " ++ name
  | .apply operator true => "apply " ++ operator.symbol ++ " (swapped)"
  | .apply operator false => "apply " ++ operator.symbol
  | .store .data a => "store to data " ++ Numeral.hex 4 a.val
  | .store .program a => "store to program " ++ Numeral.hex 4 a.val

def Action.text (a : Action) : String :=
  "line " ++ Numeral.decimal a.line ++ ": " ++ a.work.text

end TwoPass
