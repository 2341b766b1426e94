import TwoPass.Fault

/-! What the operators compute. Arithmetic wraps around in 32 bits, division
truncates toward zero, and shifts move the unsigned pattern. A power is the real
power truncated toward zero, computed on integers. -/
namespace TwoPass

def UnaryOperator.eval : UnaryOperator → Value → Value
  | .negate, v => -v
  | .complement, v => ~~~v

/-- Shifts by an amount outside 0 to 31 push every bit out. -/
def logicalShift (shift : Value → Nat → Value) (v amount : Value) : Value :=
  if amount.toNat < 32 then shift v amount.toNat else 0

/-- An exponent up to 33 with the parity of the given one. A base of at least 2 in
absolute value passes 32 bits at either, and the other bases only see the parity,
so the power fits for both exponents or for neither and is the same if it fits. -/
def cappedExponent (n : Nat) : Nat :=
  if n ≤ 32 then n else 32 + n % 2

/-- The real power truncated toward zero; there is none for 0 to a negative power.
The result is exact whenever it fits in 32 bits. -/
def truncatedPower (base exponent : Int) : Option Int :=
  if 0 ≤ exponent then some (base.pow (cappedExponent exponent.toNat))
  else if base = 0 then none
  else if base.natAbs = 1 then some (base.pow (cappedExponent exponent.natAbs))
  else some 0

def Value.ofInt? (n : Int) : Option Value :=
  if -0x80000000 ≤ n ∧ n < 0x80000000 then some (BitVec.ofInt 32 n) else none

def power? (base exponent : Value) : Option Value :=
  (truncatedPower base.toInt exponent.toInt).bind Value.ofInt?

/-- The line is only used to report a fault. -/
def BinaryOperator.eval (op : BinaryOperator) (l r : Value) (line : Line) : Except Fault Value :=
  match op with
  | .or => .ok (l ||| r)
  | .xor => .ok (l ^^^ r)
  | .and => .ok (l &&& r)
  | .shiftLeft => .ok (logicalShift (· <<< ·) l r)
  | .shiftRight => .ok (logicalShift (· >>> ·) l r)
  | .add => .ok (l + r)
  | .subtract => .ok (l - r)
  | .multiply => .ok (l * r)
  | .divide => if r = 0 then .error (.divisionByZero op line) else .ok (l.sdiv r)
  | .modulus => if r = 0 then .error (.divisionByZero op line) else .ok (l.srem r)
  | .power =>
    match power? l r with
    | some v => .ok v
    | none => .error (.exponentOverflow l r line)

end TwoPass
