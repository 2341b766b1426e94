/-! The operators of expressions. -/
namespace TwoPass

inductive UnaryOperator where
  | negate
  | complement
deriving DecidableEq, Repr

inductive BinaryOperator where
  | or
  | xor
  | and
  | shiftLeft
  | shiftRight
  | add
  | subtract
  | multiply
  | divide
  | modulus
  | power
deriving DecidableEq, Repr

inductive Operator where
  | unary (op : UnaryOperator)
  | binary (op : BinaryOperator)
deriving DecidableEq, Repr

def UnaryOperator.symbol : UnaryOperator → String
  | .negate => "-"
  | .complement => "~"

def BinaryOperator.symbol : BinaryOperator → String
  | .or => "|"
  | .xor => "^"
  | .and => "&"
  | .shiftLeft => "<<"
  | .shiftRight => ">>"
  | .add => "+"
  | .subtract => "-"
  | .multiply => "*"
  | .divide => "/"
  | .modulus => "%"
  | .power => "**"

def Operator.symbol : Operator → String
  | .unary op => op.symbol
  | .binary op => op.symbol

end TwoPass
