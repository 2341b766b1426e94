import TwoPass.Expression.Tree
import TwoPass.Proofs.Operands

/-! Calls of `step` that all go well, and the nodes of a tree in the order in which the
machine replays them. -/
namespace TwoPass

namespace Machine

/-- `k` calls of `step` all answer that the machine is running, and lead to `next`. -/
structure Proceeds (machine : Machine) (k : Nat) (next : Machine) : Prop where
  running : ∀ j < k, (machine.after j).answer = .ok .running
  reached : machine.after k = next

theorem Proceeds.zero (machine : Machine) : machine.Proceeds 0 machine :=
  ⟨by intro j below; omega, rfl⟩

theorem Proceeds.trans {first second third : Machine} {j k : Nat} (front : first.Proceeds j second)
    (back : second.Proceeds k third) : first.Proceeds (j + k) third := by
  constructor
  · intro i below
    by_cases early : i < j
    · exact front.running i early
    · have late := back.running (i - j) (by omega)
      rw [← front.reached, ← after_add] at late
      simpa only [Nat.add_sub_cancel' (Nat.le_of_not_gt early)] using late
  · rw [after_add, front.reached, back.reached]

theorem Proceeds.one {machine next : Machine} (stepped : machine.step = (none, next))
    (running : next.phase = .running) : machine.Proceeds 1 next := by
  constructor
  · intro j below
    have first : j = 0 := by omega
    subst first
    simp only [after, answer, stepped, running]
  · simp only [after, stepped]

/-- The first of several calls that go well. -/
theorem Proceeds.uncons {machine last : Machine} {k : Nat} (proceeds : machine.Proceeds (k + 1) last) :
    ∃ next, machine.step = (none, next) ∧ next.phase = .running ∧ next.Proceeds k last := by
  have first := proceeds.running 0 (Nat.succ_pos k)
  rcases stepped : machine.step with ⟨_ | fault, next⟩
  · have later := after_succ stepped
    simp only [after, answer, stepped, Except.ok.injEq] at first
    refine ⟨next, rfl, first, fun j below => ?_, ?_⟩
    · rw [← later]
      exact proceeds.running (j + 1) (Nat.succ_lt_succ below)
    · rw [← later]
      exact proceeds.reached
  · simp only [after, answer, stepped] at first
    contradiction

/-- A run goes on from wherever calls that go well have led. -/
theorem Proceeds.run_eq {machine last : Machine} {k : Nat} (proceeds : machine.Proceeds k last) :
    machine.run = last.run := by
  induction k generalizing machine with
  | zero => rw [← proceeds.reached, after]
  | succ k ih =>
    obtain ⟨next, stepped, running, rest⟩ := proceeds.uncons
    rw [← ih rest]
    cases step_outcome stepped with
    | idle | finish => contradiction
    | push | store => rw [run_cons _ rfl, stepped]

/-- Calls that go well make the patches of as many pending actions. -/
theorem Proceeds.replayed {sizes : Sizes} {program : Image .program} {data : Image .data}
    {symbols : SymbolTable} {pending : List Action} {stack : Stack} {k : Nat} {last : Machine}
    (proceeds : Proceeds ⟨⟨sizes, program, data, symbols, pending⟩, stack, .running⟩ k last) :
    ∃ patches left, replay symbols (pending.take k) stack = .ok (patches, left) ∧
      last = ⟨⟨sizes, program.patchAll patches, data.patchAll patches, symbols, pending.drop k⟩, left,
        .running⟩ := by
  induction k generalizing program data pending stack with
  | zero => exact ⟨[], stack, rfl, proceeds.reached.symm⟩
  | succ k ih =>
    obtain ⟨next, stepped, running, rest⟩ := proceeds.uncons
    cases step_outcome stepped with
    | finish => contradiction
    | push _ _ _ pending performed =>
      obtain ⟨patches, left, replayed, rfl⟩ := ih rest
      exact ⟨patches, left, by simp only [List.take_succ_cons, replay, performed, replayed], rfl⟩
    | store _ _ _ pending performed =>
      obtain ⟨patches, left, replayed, rfl⟩ := ih rest
      refine ⟨_ :: patches, left, ?_, rfl⟩
      simp only [List.take_succ_cons, replay, performed, replayed, Except.map]

/-- As long as actions are pending, a call that does not fail goes well. -/
theorem proceeds_of_succeed {machine : Machine} {k : Nat} (running : machine.phase = .running)
    (below : k ≤ machine.session.pending.length)
    (succeed : ∀ j < k, ∀ fault, (machine.after j).answer ≠ .error fault) :
    machine.Proceeds k (machine.after k) := by
  induction k generalizing machine with
  | zero => exact .zero machine
  | succ k ih =>
    rcases stepped : machine.step with ⟨answered, next⟩
    have later := after_succ stepped
    have first : answered = none := by
      cases answered with
      | none => rfl
      | some fault => exact absurd (by simp only [after, answer, stepped]) (succeed 0 (Nat.succ_pos k) fault)
    subst first
    have rest : next.phase = .running ∧ k ≤ next.session.pending.length := by
      cases step_outcome stepped with
      | idle | finish => contradiction
      | push | store => exact ⟨rfl, Nat.le_of_succ_le_succ below⟩
    rw [later, Nat.add_comm]
    refine (Proceeds.one stepped rest.1).trans (ih rest.1 rest.2 fun j inside => ?_)
    rw [← later]
    exact succeed (j + 1) (Nat.succ_lt_succ inside)

end Machine

theorem BinaryOperator.eval_ne_stackUnderflow (op : BinaryOperator) (l r : Value) (line other : Line) :
    op.eval l r line ≠ .error (.stackUnderflow other) := by
  simp [eval_eq_error_iff]

namespace Expr

/-- All subtrees in the order of their actions; a tree comes behind its operands. -/
def nodes : Expr → List Expr
  | .literal v line => [.literal v line]
  | .symbol name line => [.symbol name line]
  | .unary op swapped line e => e.nodes ++ [.unary op swapped line e]
  | .binary op false line l r => l.nodes ++ r.nodes ++ [.binary op false line l r]
  | .binary op true line l r => r.nodes ++ l.nodes ++ [.binary op true line l r]

/-- What is replayed for the root of a tree, once its operands are on the stack. -/
def action : Expr → Action
  | .literal v line => ⟨.literal v, line⟩
  | .symbol name line => ⟨.symbol name, line⟩
  | .unary op swapped line _ => ⟨.apply (.unary op) swapped, line⟩
  | .binary op swapped line _ _ => ⟨.apply (.binary op) swapped, line⟩

theorem actions_eq_nodes (e : Expr) : e.actions = e.nodes.map action := by
  induction e with
  | literal v line => rfl
  | symbol name line => rfl
  | unary op swapped line e ih => simp [actions, nodes, action, ih]
  | binary op swapped line l r ihl ihr => cases swapped <;> simp [actions, nodes, action, ihl, ihr]

/-- The machine that has still to replay `actions`. -/
def machine (s : Session) (actions : List Action) (stack : Stack) : Machine :=
  ⟨{ s with pending := actions }, stack, .running⟩

theorem machine_push {s : Session} {action : Action} {stack left : Stack} {v : Value}
    (performed : action.perform s.symbols stack = (.ok (.push v), left)) (rest : List Action) :
    (machine s (action :: rest) stack).Proceeds 1 (machine s rest (v :: left)) :=
  .one (Machine.step_push performed) rfl

theorem machine_fault {s : Session} {action : Action} {stack left : Stack} {fault : Fault}
    (performed : action.perform s.symbols stack = (.error fault, left)) (rest : List Action) :
    (machine s (action :: rest) stack).answer = .error fault := by
  simp only [machine, Machine.answer, Machine.step_fault performed]

end Expr
end TwoPass
