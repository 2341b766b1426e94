import TwoPass.Proofs.Progress

/-! Replaying the actions of a tree evaluates it. The machine works through the nodes
of the tree in the order of their actions; it leaves the value of the tree on top of
the stack it found, or stops at the first node without a value. -/
namespace TwoPass.Expr

/-- Every node has a value, and replaying them proceeds to that of the tree, on any
stack and before any actions. -/
structure Computes (s : Session) (e : Expr) (v : Value) : Prop where
  valued : ∀ node ∈ e.nodes, ∃ w, node.eval s.symbols = .ok w
  proceeds : ∀ stack rest, (machine s (e.actions ++ rest) stack).Proceeds e.actions.length
    (machine s rest (v :: stack))

/-- Replaying proceeds to the first node without a value, and fails there. -/
structure Stops (s : Session) (e : Expr) (before : List Expr) (node : Expr) (after : List Expr)
    (fault : Fault) : Prop where
  nodes : e.nodes = before ++ node :: after
  valued : ∀ x ∈ before, ∃ v, x.eval s.symbols = .ok v
  failed : node.eval s.symbols = .error fault
  provided : ∀ line, fault ≠ .stackUnderflow line
  proceeds : ∀ stack rest, ∃ stuck, (machine s (e.actions ++ rest) stack).Proceeds before.length stuck ∧
    stuck.session.pending = node.action :: (after.map action ++ rest) ∧ stuck.answer = .error fault

theorem computes_root {s : Session} {e : Expr} {v : Value} (before : List Expr)
    (nodes : e.nodes = before ++ [e]) (valued : ∀ x ∈ before, ∃ w, x.eval s.symbols = .ok w)
    (value : e.eval s.symbols = .ok v)
    (reached : ∀ stack rest, ∃ top, e.action.perform s.symbols top = (.ok (.push v), stack) ∧
      (machine s (before.map action ++ rest) stack).Proceeds before.length (machine s rest top)) :
    Computes s e v := by
  have actions : e.actions = before.map action ++ [e.action] := by
    rw [actions_eq_nodes, nodes, List.map_append]
    rfl
  constructor
  · intro node member
    rw [nodes] at member
    rcases List.mem_append.mp member with inside | root
    · exact valued node inside
    · obtain rfl := List.mem_singleton.mp root
      exact ⟨v, value⟩
  · intro stack rest
    obtain ⟨top, performed, front⟩ := reached stack (e.action :: rest)
    have back := machine_push performed rest
    rw [actions, List.append_assoc, List.length_append, List.length_map]
    exact front.trans back

theorem stops_root {s : Session} {e : Expr} {fault : Fault} (before : List Expr)
    (nodes : e.nodes = before ++ [e]) (valued : ∀ x ∈ before, ∃ w, x.eval s.symbols = .ok w)
    (failed : e.eval s.symbols = .error fault) (provided : ∀ line, fault ≠ .stackUnderflow line)
    (reached : ∀ stack rest, ∃ top, e.action.perform s.symbols top = (.error fault, stack) ∧
      (machine s (before.map action ++ rest) stack).Proceeds before.length (machine s rest top)) :
    Stops s e before e [] fault := by
  have actions : e.actions = before.map action ++ [e.action] := by
    rw [actions_eq_nodes, nodes, List.map_append]
    rfl
  refine ⟨nodes, valued, failed, provided, ?_⟩
  intro stack rest
  obtain ⟨top, performed, front⟩ := reached stack (e.action :: rest)
  refine ⟨machine s (e.action :: rest) top, ?_, rfl, machine_fault performed rest⟩
  rw [actions, List.append_assoc]
  exact front

/-- A tree stops where its first operand does. -/
theorem Stops.first {s : Session} {e first node : Expr} {before after more : List Expr} {fault : Fault}
    (stops : Stops s first before node after fault) (nodes : e.nodes = first.nodes ++ more) :
    Stops s e before node (after ++ more) fault := by
  refine ⟨?_, stops.valued, stops.failed, stops.provided, ?_⟩
  · rw [nodes, stops.nodes, List.append_assoc, List.cons_append]
  · intro stack rest
    obtain ⟨stuck, proceeds, pending, answered⟩ := stops.proceeds stack (more.map action ++ rest)
    refine ⟨stuck, ?_, ?_, answered⟩
    · rw [actions_eq_nodes e, nodes, List.map_append, ← actions_eq_nodes, List.append_assoc]
      exact proceeds
    · rw [pending, List.map_append, List.append_assoc]

/-- Behind an operand that has a value, a tree stops where the next one does. -/
theorem Stops.second {s : Session} {e first second node : Expr} {v : Value}
    {before after more : List Expr} {fault : Fault} (computes : Computes s first v)
    (stops : Stops s second before node after fault)
    (nodes : e.nodes = first.nodes ++ (second.nodes ++ more)) :
    Stops s e (first.nodes ++ before) node (after ++ more) fault := by
  refine ⟨?_, ?_, stops.failed, stops.provided, ?_⟩
  · simp only [nodes, stops.nodes, List.append_assoc, List.cons_append]
  · intro x member
    rcases List.mem_append.mp member with inside | inside
    · exact computes.valued x inside
    · exact stops.valued x inside
  · intro stack rest
    have front := computes.proceeds stack (second.actions ++ (more.map action ++ rest))
    obtain ⟨stuck, back, pending, answered⟩ := stops.proceeds (v :: stack) (more.map action ++ rest)
    refine ⟨stuck, ?_, ?_, answered⟩
    · have whole := front.trans back
      have length : first.actions.length = first.nodes.length := by
        rw [actions_eq_nodes, List.length_map]
      rw [actions_eq_nodes e, nodes]
      simpa only [List.map_append, ← actions_eq_nodes, List.append_assoc, List.length_append, length]
        using whole
    · rw [pending, List.map_append, List.append_assoc]

/-- Replaying a tree does what evaluating it says. -/
def Replays (s : Session) (e : Expr) : Prop :=
  match e.eval s.symbols with
  | .ok v => Computes s e v
  | .error fault => ∃ before node after, Stops s e before node after fault

theorem Computes.pair {s : Session} {first second : Expr} {x y : Value} (left : Computes s first x)
    (right : Computes s second y) (stack : Stack) (rest : List Action) :
    (machine s ((first.nodes ++ second.nodes).map action ++ rest) stack).Proceeds
      (first.nodes ++ second.nodes).length (machine s rest (y :: x :: stack)) := by
  have whole := (left.proceeds stack (second.actions ++ rest)).trans (right.proceeds (x :: stack) rest)
  simpa only [actions_eq_nodes, List.map_append, List.append_assoc, List.length_append,
    List.length_map] using whole

/-- An operator on two operands, in the order in which they are replayed. -/
theorem replays_pair {s : Session} {e first second : Expr} {result : Value → Value → Except Fault Value}
    (nodes : e.nodes = first.nodes ++ second.nodes ++ [e])
    (evaluated : e.eval s.symbols =
      (first.eval s.symbols).bind fun x => (second.eval s.symbols).bind (result x))
    (performed : ∀ x y stack,
      e.action.perform s.symbols (y :: x :: stack) = ((result x y).map .push, stack))
    (provided : ∀ x y line, result x y ≠ .error (.stackUnderflow line))
    (left : Replays s first) (right : Replays s second) : Replays s e := by
  unfold Replays at left right ⊢
  cases one : first.eval s.symbols with
  | error fault =>
    simp only [one] at left
    obtain ⟨before, node, after, stops⟩ := left
    simp only [evaluated, one, Except.bind]
    exact ⟨_, _, _, stops.first (by rw [nodes, List.append_assoc])⟩
  | ok x =>
    simp only [one] at left
    cases two : second.eval s.symbols with
    | error fault =>
      simp only [two] at right
      obtain ⟨before, node, after, stops⟩ := right
      simp only [evaluated, one, two, Except.bind]
      exact ⟨_, _, _, stops.second left (by rw [nodes, List.append_assoc])⟩
    | ok y =>
      simp only [two] at right
      have operands : ∀ node ∈ first.nodes ++ second.nodes, ∃ w, node.eval s.symbols = .ok w := by
        intro node member
        rcases List.mem_append.mp member with inside | inside
        · exact left.valued node inside
        · exact right.valued node inside
      have root : e.eval s.symbols = result x y := by simp only [evaluated, one, two, Except.bind]
      rw [root]
      cases computed : result x y with
      | error fault =>
        refine ⟨_, e, [], stops_root _ nodes operands (root.trans computed) ?_ ?_⟩
        · intro line underflow
          exact provided x y line (underflow ▸ computed)
        · intro stack rest
          exact ⟨y :: x :: stack, by rw [performed, computed]; rfl, left.pair right stack rest⟩
      | ok v =>
        refine computes_root _ nodes operands (root.trans computed) ?_
        intro stack rest
        exact ⟨y :: x :: stack, by rw [performed, computed]; rfl, left.pair right stack rest⟩

theorem replays (s : Session) (e : Expr) : Replays s e := by
  induction e with
  | literal v line =>
    refine computes_root [] rfl (by simp) rfl ?_
    intro stack rest
    exact ⟨stack, rfl, .zero _⟩
  | symbol name line =>
    simp only [Replays, eval]
    cases found : s.symbols.lookup name line with
    | error fault =>
      refine ⟨[], _, [], stops_root [] rfl (by simp) found ?_ ?_⟩
      · intro line underflow
        simp only [SymbolTable.lookup] at found
        split at found <;> simp_all
      · intro stack rest
        exact ⟨stack, by simp [action, Action.perform, found, Except.map], .zero _⟩
    | ok v =>
      refine computes_root [] rfl (by simp) found ?_
      intro stack rest
      exact ⟨stack, by simp [action, Action.perform, found, Except.map], .zero _⟩
  | unary op swapped line e ih =>
    simp only [Replays, eval] at ih ⊢
    cases operand : e.eval s.symbols with
    | error fault =>
      simp only [operand] at ih
      obtain ⟨before, node, after, stops⟩ := ih
      exact ⟨_, _, _, stops.first rfl⟩
    | ok v =>
      simp only [operand] at ih
      refine computes_root e.nodes rfl ih.valued (by simp [eval, operand, bind, Except.bind, pure, Except.pure]) ?_
      intro stack rest
      refine ⟨v :: stack, rfl, ?_⟩
      have proceeds := ih.proceeds stack rest
      rwa [actions_eq_nodes, List.length_map] at proceeds
  | binary op swapped line l r ihl ihr =>
    -- The stack holds the operands in the order of replay; the swap puts them right.
    cases swapped with
    | false =>
      exact replays_pair rfl rfl (fun _ _ _ => rfl)
        (fun x y => op.eval_ne_stackUnderflow x y line) ihl ihr
    | true =>
      exact replays_pair rfl rfl (fun _ _ _ => rfl)
        (fun x y => op.eval_ne_stackUnderflow y x line) ihr ihl

/-- Replaying the actions of a tree computes the tree. With a value, every call of
`step` answers that the machine is running, and only the value is new in the end.
With a fault, the calls succeed up to the action of the first node that has no value,
whose answer is the fault of the tree, never one for a lack of operands. -/
theorem replay_computes_tree (e : Expr) (s : Session) (stack : Stack) (rest : List Action) :
    let machine : Machine := ⟨{ s with pending := e.actions ++ rest }, stack, .running⟩
    match e.eval s.symbols with
    | .ok v =>
      (∀ k < e.actions.length, (machine.after k).answer = .ok .running) ∧
      machine.after e.actions.length = ⟨{ s with pending := rest }, v :: stack, .running⟩
    | .error fault =>
      ∃ before node after, e.nodes = before ++ node :: after ∧
        (∀ x ∈ before, ∃ v, x.eval s.symbols = .ok v) ∧ node.eval s.symbols = .error fault ∧
        (∀ k < before.length, (machine.after k).answer = .ok .running) ∧
        (machine.after before.length).session.pending = node.action :: (after.map action ++ rest) ∧
        (machine.after before.length).answer = .error fault ∧
        ∀ line, fault ≠ .stackUnderflow line := by
  intro machine
  have replayed := replays s e
  unfold Replays at replayed
  cases evaluated : e.eval s.symbols with
  | ok v =>
    simp only [evaluated] at replayed ⊢
    obtain ⟨running, reached⟩ := replayed.proceeds stack rest
    exact ⟨running, reached⟩
  | error fault =>
    simp only [evaluated] at replayed ⊢
    obtain ⟨before, node, after, stops⟩ := replayed
    obtain ⟨stuck, ⟨running, reached⟩, pending, answered⟩ := stops.proceeds stack rest
    subst reached
    exact ⟨before, node, after, stops.nodes, stops.valued, stops.failed, running, pending, answered,
      stops.provided⟩

end TwoPass.Expr
