import TwoPass.Proofs.Replay

/-! What an action takes from the stack, and why it fails. The number of its operands and
what it adds to the height of the stack are known without any value; the values only
decide whether an operator has a result. -/
namespace TwoPass

namespace Work

/-- The number of values that an action needs on the stack. -/
def arity : Work → Nat
  | .literal _ | .symbol _ => 0
  | .apply (.unary _) _ | .store _ _ => 1
  | .apply (.binary _) _ => 2

/-- What an action pushes, less what it pops. -/
def gain : Work → Int
  | .literal _ | .symbol _ => 1
  | .apply (.unary _) _ => 0
  | .apply (.binary _) _ | .store _ _ => -1

end Work

/-- The left and the right operand of a binary operator. -/
def Stack.operands? (swapped : Bool) : Stack → Option (Value × Value)
  | top :: next :: _ => some (if swapped then (top, next) else (next, top))
  | _ => none

/-- Why an action fails although the stack holds its operands. -/
inductive Action.Rejected (symbols : SymbolTable) (stack : Stack) : Action → Fault → Prop
  | undefined {name : String} {line : Line} (unknown : symbols.find? name = none) :
      Rejected symbols stack ⟨.symbol name, line⟩ (.undefinedSymbol name line)
  | zeroDivisor {op : BinaryOperator} {swapped : Bool} {line : Line} {l : Value}
      (divides : op = .divide ∨ op = .modulus) (operands : stack.operands? swapped = some (l, 0)) :
      Rejected symbols stack ⟨.apply (.binary op) swapped, line⟩ (.divisionByZero op line)
  | noPower {swapped : Bool} {line : Line} {l r : Value}
      (operands : stack.operands? swapped = some (l, r)) (unfit : power? l r = none) :
      Rejected symbols stack ⟨.apply (.binary .power) swapped, line⟩ (.exponentOverflow l r line)

theorem BinaryOperator.eval_eq_error_iff (op : BinaryOperator) (l r : Value) (line : Line)
    (fault : Fault) :
    op.eval l r line = .error fault ↔
      (op = .divide ∨ op = .modulus) ∧ r = 0 ∧ .divisionByZero op line = fault ∨
      op = .power ∧ power? l r = none ∧ .exponentOverflow l r line = fault := by
  cases op with
  | divide | modulus =>
    simp only [eval]
    split <;> simp_all
  | power =>
    simp only [eval]
    split <;> simp_all
  | _ => simp [eval]

theorem SymbolTable.lookup_eq_error_iff (symbols : SymbolTable) (name : String) (line : Line)
    (fault : Fault) :
    symbols.lookup name line = .error fault ↔
      symbols.find? name = none ∧ .undefinedSymbol name line = fault := by
  cases found : symbols.find? name <;> simp [lookup, value?, found]

namespace Action
variable {symbols : SymbolTable} {stack : Stack}

/-- An action takes its operands from the stack, whether it fails or not. -/
theorem perform_stack (action : Action) (symbols : SymbolTable) (stack : Stack) :
    (action.perform symbols stack).2 = stack.drop action.work.arity := by
  obtain ⟨work, line⟩ := action
  cases work with
  | literal v | symbol name => rfl
  | apply operator swapped =>
    cases operator with
    | unary op => cases stack <;> rfl
    | binary op => obtain _ | ⟨top, _ | ⟨next, stack⟩⟩ := stack <;> rfl
  | store m a => cases stack <;> rfl

/-- A stack that is lower than the arity of an action makes it fail. -/
theorem perform_short {action : Action} (short : stack.length < action.work.arity)
    (symbols : SymbolTable) :
    (action.perform symbols stack).1 = .error (.stackUnderflow action.line) := by
  obtain ⟨work, line⟩ := action
  cases work with
  | literal v | symbol name => simp [Work.arity] at short
  | apply operator swapped =>
    cases operator with
    | unary op =>
      obtain rfl : stack = [] := by simpa [Work.arity] using short
      rfl
    | binary op =>
      obtain _ | ⟨top, _ | ⟨next, stack⟩⟩ := stack
      · rfl
      · rfl
      · simp only [Work.arity, List.length_cons] at short
        omega
  | store m a =>
    obtain rfl : stack = [] := by simpa [Work.arity] using short
    rfl

theorem perform_symbol_error_iff (symbols : SymbolTable) (stack : Stack) (name : String) (line : Line)
    (fault : Fault) :
    (perform ⟨.symbol name, line⟩ symbols stack).1 = .error fault ↔
      symbols.find? name = none ∧ .undefinedSymbol name line = fault := by
  rw [← SymbolTable.lookup_eq_error_iff]
  cases found : symbols.lookup name line <;> simp [perform, found, Except.map]

theorem perform_binary_error_iff {swapped : Bool} {l r : Value}
    (operands : stack.operands? swapped = some (l, r)) (symbols : SymbolTable) (op : BinaryOperator)
    (line : Line) (fault : Fault) :
    (perform ⟨.apply (.binary op) swapped, line⟩ symbols stack).1 = .error fault ↔
      op.eval l r line = .error fault := by
  obtain _ | ⟨top, _ | ⟨next, stack⟩⟩ := stack
  · contradiction
  · contradiction
  have evaluated : (perform ⟨.apply (.binary op) swapped, line⟩ symbols (top :: next :: stack)).1 =
      (op.eval l r line).map .push := by
    cases swapped <;> cases operands <;> rfl
  rw [evaluated]
  cases op.eval l r line <;> simp [Except.map]

/-- With its operands on the stack, an action fails exactly if it is rejected. -/
theorem perform_eq_error_iff {action : Action} (enough : action.work.arity ≤ stack.length)
    (symbols : SymbolTable) (fault : Fault) :
    (action.perform symbols stack).1 = .error fault ↔ Rejected symbols stack action fault := by
  obtain ⟨work, line⟩ := action
  cases work with
  | literal v => exact iff_of_false (by simp [perform]) (by rintro ⟨⟩)
  | symbol name =>
    rw [perform_symbol_error_iff]
    constructor
    · rintro ⟨unknown, rfl⟩
      exact .undefined unknown
    · rintro ⟨unknown⟩
      exact ⟨unknown, rfl⟩
  | apply operator swapped =>
    cases operator with
    | unary op =>
      obtain _ | ⟨top, stack⟩ := stack
      · simp [Work.arity] at enough
      · exact iff_of_false (by simp [perform, Stack.pop, Except.map]) (by rintro ⟨⟩)
    | binary op =>
      obtain ⟨l, r, operands⟩ : ∃ l r, stack.operands? swapped = some (l, r) := by
        obtain _ | ⟨top, _ | ⟨next, stack⟩⟩ := stack
        · simp [Work.arity] at enough
        · simp [Work.arity] at enough
        · cases swapped <;> exact ⟨_, _, rfl⟩
      rw [perform_binary_error_iff operands, BinaryOperator.eval_eq_error_iff]
      constructor
      · rintro (⟨divides, rfl, rfl⟩ | ⟨rfl, unfit, rfl⟩)
        · exact .zeroDivisor divides operands
        · exact .noPower operands unfit
      · rintro (_ | ⟨divides, found⟩ | ⟨found, unfit⟩)
        · cases operands.symm.trans found
          exact .inl ⟨divides, rfl, rfl⟩
        · cases operands.symm.trans found
          exact .inr ⟨rfl, unfit, rfl⟩
  | store m a =>
    obtain _ | ⟨top, stack⟩ := stack
    · simp [Work.arity] at enough
    · exact iff_of_false (by simp [perform, Stack.pop, Except.map]) (by rintro ⟨⟩)

theorem Rejected.line {action : Action} {fault : Fault}
    (rejected : Rejected symbols stack action fault) : fault.line = some action.line := by
  cases rejected <;> rfl

theorem Rejected.isInternal {action : Action} {fault : Fault}
    (rejected : Rejected symbols stack action fault) : fault.isInternal = false := by
  cases rejected <;> rfl

/-- An action fails for lack of operands or for their values, never for both. -/
theorem perform_fault {action : Action} {fault : Fault}
    (failed : (action.perform symbols stack).1 = .error fault) :
    stack.length < action.work.arity ∧ fault = .stackUnderflow action.line ∨
      action.work.arity ≤ stack.length ∧ Rejected symbols stack action fault := by
  rcases Nat.lt_or_ge stack.length action.work.arity with short | enough
  · rw [perform_short short, Except.error.injEq] at failed
    exact .inl ⟨short, failed.symm⟩
  · exact .inr ⟨enough, (perform_eq_error_iff enough symbols fault).mp failed⟩

theorem perform_underflow_iff (action : Action) (symbols : SymbolTable) (stack : Stack) :
    (action.perform symbols stack).1 = .error (.stackUnderflow action.line) ↔
      stack.length < action.work.arity := by
  constructor
  · intro failed
    obtain ⟨short, -⟩ | ⟨-, rejected⟩ := perform_fault failed
    · exact short
    · cases rejected
  · intro short
    exact perform_short short symbols

/-- A fault names the line of its action, and is internal for lack of operands only. -/
theorem line_of_perform {action : Action} {fault : Fault}
    (failed : (action.perform symbols stack).1 = .error fault) :
    fault.line = some action.line ∧ (fault.isInternal = true ↔ stack.length < action.work.arity) := by
  obtain ⟨short, rfl⟩ | ⟨enough, rejected⟩ := perform_fault failed
  · exact ⟨rfl, iff_of_true rfl short⟩
  · exact ⟨rejected.line, iff_of_false (by simp [rejected.isInternal]) (Nat.not_lt.mpr enough)⟩

theorem enough_of_ok {action : Action} {effect : Effect} {left : Stack}
    (performed : action.perform symbols stack = (.ok effect, left)) :
    action.work.arity ≤ stack.length := by
  refine Nat.le_of_not_lt fun short => ?_
  have failed := perform_short short symbols
  rw [performed] at failed
  contradiction

theorem height_of_push {action : Action} {v : Value} {left : Stack}
    (performed : action.perform symbols stack = (.ok (.push v), left)) :
    ((v :: left).length : Int) = stack.length + action.work.gain := by
  have enough := enough_of_ok performed
  have rest := action.perform_stack symbols stack
  have gain : action.work.gain = 1 - action.work.arity := by
    have other := action.perform_push performed
    generalize action.work = work at other ⊢
    rcases work with value | name | ⟨_ | _, swapped⟩ | ⟨m, a⟩
    · rfl
    · rfl
    · rfl
    · rfl
    · exact absurd rfl (other m a)
  rw [performed] at rest
  simp only at rest
  rw [rest, gain, List.length_cons, List.length_drop]
  omega

theorem height_of_store {action : Action} {m : Memory} {a : Address} {v : Value} {left : Stack}
    (performed : action.perform symbols stack = (.ok (.store m a v), left)) :
    (left.length : Int) = stack.length + action.work.gain := by
  obtain ⟨work, rfl⟩ := action.perform_store performed
  rw [work, Work.gain, List.length_cons]
  omega

end Action
end TwoPass
