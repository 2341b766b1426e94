import TwoPass.Expression.Tree
import TwoPass.Proofs.Patch

/-! The values of trees. A tree that has one keeps it when symbols are added, and the
actions of a tree do nothing but push its value, or fail if it has none. -/
namespace TwoPass

theorem SymbolTable.lookup_append {t : SymbolTable} {name : String} {line : Line} {v : Value}
    (known : t.lookup name line = .ok v) (more : List Symbol) :
    SymbolTable.lookup ⟨t.symbols ++ more⟩ name line = .ok v := by
  simp only [lookup, value?, find?, List.find?_append] at known ⊢
  cases found : t.symbols.find? (·.name = name) with
  | none => simp [found] at known
  | some symbol => simpa [found] using known

namespace Expr

theorem eval_unary_ok {symbols : SymbolTable} {op : UnaryOperator} {swapped : Bool} {line : Line}
    {e : Expr} {v : Value} (valued : (unary op swapped line e).eval symbols = .ok v) :
    ∃ x, e.eval symbols = .ok x ∧ op.eval x = v := by
  simp only [eval] at valued
  cases operand : e.eval symbols with
  | error fault =>
    simp only [operand, bind, Except.bind] at valued
    contradiction
  | ok x =>
    simp only [operand, bind, Except.bind, pure, Except.pure, Except.ok.injEq] at valued
    exact ⟨x, rfl, valued⟩

theorem eval_binary_ok {symbols : SymbolTable} {op : BinaryOperator} {swapped : Bool} {line : Line}
    {l r : Expr} {v : Value} (valued : (binary op swapped line l r).eval symbols = .ok v) :
    ∃ x y, l.eval symbols = .ok x ∧ r.eval symbols = .ok y ∧ op.eval x y line = .ok v := by
  cases left : l.eval symbols with
  | error fault => cases swapped <;> cases right : r.eval symbols <;> simp_all [eval, bind, Except.bind]
  | ok x =>
    cases right : r.eval symbols with
    | error fault => cases swapped <;> simp_all [eval, bind, Except.bind]
    | ok y =>
      refine ⟨x, y, rfl, rfl, ?_⟩
      cases swapped <;> simpa [eval, left, right, bind, Except.bind] using valued

theorem eval_binary {symbols : SymbolTable} {l r : Expr} {x y : Value}
    (left : l.eval symbols = .ok x) (right : r.eval symbols = .ok y) (op : BinaryOperator)
    (swapped : Bool) (line : Line) :
    (binary op swapped line l r).eval symbols = op.eval x y line := by
  cases swapped <;> simp [eval, left, right, bind, Except.bind]

/-- Later definitions do not change the value of a tree. -/
theorem eval_append {t : SymbolTable} {e : Expr} {v : Value} (valued : e.eval t = .ok v)
    (more : List Symbol) : e.eval ⟨t.symbols ++ more⟩ = .ok v := by
  induction e generalizing v with
  | literal value line => exact valued
  | symbol name line => exact SymbolTable.lookup_append valued more
  | unary op swapped line e ih =>
    obtain ⟨x, operand, rfl⟩ := eval_unary_ok valued
    simp [eval, ih operand, bind, Except.bind, pure, Except.pure]
  | binary op swapped line l r ihl ihr =>
    obtain ⟨x, y, left, right, result⟩ := eval_binary_ok valued
    rw [eval_binary (ihl left) (ihr right), result]

/-- The actions of a tree store nothing. On any stack they add its value, or fail as it
does. -/
def Pushes (symbols : SymbolTable) (e : Expr) : Prop :=
  ∀ stack, replay symbols e.actions stack = (e.eval symbols).map fun v => ([], v :: stack)

/-- An operator on two operands, in the order in which they are replayed. -/
theorem pushes_pair {symbols : SymbolTable} {e first second : Expr} {action : Action}
    {result : Value → Value → Except Fault Value}
    (actions : e.actions = first.actions ++ second.actions ++ [action])
    (evaluated : e.eval symbols = (first.eval symbols).bind fun x => (second.eval symbols).bind (result x))
    (performed : ∀ x y stack, action.perform symbols (y :: x :: stack) = ((result x y).map .push, stack))
    (front : Pushes symbols first) (back : Pushes symbols second) : Pushes symbols e := by
  intro stack
  rw [actions, evaluated, replay_append, replay_append, front]
  cases first.eval symbols with
  | error fault => rfl
  | ok x =>
    simp only [Except.map, Except.bind, back (x :: stack)]
    cases second.eval symbols with
    | error fault => rfl
    | ok y =>
      simp only [replay, performed]
      cases result x y <;> rfl

theorem pushes (symbols : SymbolTable) (e : Expr) : Pushes symbols e := by
  induction e with
  | literal value line =>
    intro stack
    rfl
  | symbol name line =>
    intro stack
    simp only [actions, replay, Action.perform, eval]
    cases symbols.lookup name line <;> rfl
  | unary op swapped line e ih =>
    intro stack
    rw [actions, replay_append, ih, eval]
    cases e.eval symbols <;> rfl
  | binary op swapped line l r ihl ihr =>
    cases swapped with
    | false => exact pushes_pair rfl rfl (fun _ _ _ => rfl) ihl ihr
    | true => exact pushes_pair rfl rfl (fun _ _ _ => rfl) ihr ihl

theorem replay_actions {symbols : SymbolTable} {e : Expr} {v : Value}
    (valued : e.eval symbols = .ok v) (stack : Stack) :
    replay symbols e.actions stack = .ok ([], v :: stack) := by
  rw [pushes symbols e, valued]
  rfl

end Expr
end TwoPass
