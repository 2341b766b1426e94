import TwoPass.Proofs.Evaluation
import TwoPass.Proofs.Replay
import TwoPass.Proofs.Waiting

/-! Deferred statements in another order. A statement leaves the stack as it found it, so
each has its value wherever it stands; program cells add their patches up in any order,
and a data cell only has to see its own patches in theirs. -/
namespace TwoPass

/-- An expression and the store of its value. -/
structure Statement where
  expression : Expr
  memory : Memory
  address : Address
  line : Line

namespace Statement

def actions (x : Statement) : List Action :=
  x.expression.actions ++ [⟨.store x.memory x.address, x.line⟩]

def Valued (symbols : SymbolTable) (x : Statement) : Prop :=
  ∃ v, x.expression.eval symbols = .ok v

/-- The patch that a statement makes. It only matters if the expression has a value. -/
def patch (symbols : SymbolTable) (x : Statement) : Patch :=
  ⟨x.memory, x.address, (x.expression.eval symbols).toOption.getD 0⟩

theorem replay_actions (symbols : SymbolTable) (x : Statement) (stack : Stack) :
    replay symbols x.actions stack =
      (x.expression.eval symbols).map fun _ => ([x.patch symbols], stack) := by
  rw [actions, replay_append, x.expression.pushes symbols, patch]
  cases x.expression.eval symbols <;> rfl

/-- Statements in a row make their patches in order, if all of them have values. -/
theorem replay_flatMap (symbols : SymbolTable) (xs : List Statement) (stack : Stack)
    (result : List Patch × Stack) :
    replay symbols (xs.flatMap actions) stack = .ok result ↔
      (∀ x ∈ xs, x.Valued symbols) ∧ result = (xs.map (patch symbols), stack) := by
  induction xs generalizing result with
  | nil => simp [replay, eq_comm]
  | cons x xs ih =>
    rw [List.flatMap_cons, replay_append, replay_actions, List.forall_mem_cons, Valued]
    cases x.expression.eval symbols with
    | error fault => simp [Except.map, Except.bind]
    | ok v =>
      simp only [Except.map, Except.bind, Except.ok.injEq, exists_eq', true_and]
      constructor
      · intro replayed
        cases rest : replay symbols (xs.flatMap actions) stack with
        | error fault =>
          rw [rest] at replayed
          contradiction
        | ok r =>
          obtain ⟨valued, rfl⟩ := (ih r).mp rest
          rw [rest] at replayed
          exact ⟨valued, (Except.ok.inj replayed).symm⟩
      · rintro ⟨valued, rfl⟩
        rw [(ih _).mpr ⟨valued, rfl⟩]
        rfl

end Statement

/-- A cell sees the values of the statements that store to it. -/
theorem Patch.valuesAt_map (m : Memory) (a : Address) (symbols : SymbolTable) (xs : List Statement) :
    valuesAt m a (xs.map (Statement.patch symbols)) =
      (xs.filter fun x => x.memory = m ∧ x.address = a).map fun x => (x.patch symbols).value := by
  rw [valuesAt, List.filter_map, List.map_map]
  rfl

theorem Cell.foldl_patched_perm {xs ys : List Value} (perm : xs.Perm ys) (c : Cell) :
    xs.foldl (patched .program) c = ys.foldl (patched .program) c :=
  perm.foldl_eq' (fun v _ w _ c => c.patched_right_comm v w) c

/-- Patches can be made in another order that every data cell sees as the same. -/
theorem Image.patchAll_perm {m : Memory} (image : Image m) {ps qs : List Patch} (perm : ps.Perm qs)
    (order : ∀ a, Patch.valuesAt .data a ps = Patch.valuesAt .data a qs) :
    image.patchAll ps = image.patchAll qs := by
  apply ext
  · simp
  · simp
  · intro a
    rw [cell_patchAll, cell_patchAll]
    cases m with
    | program => exact Cell.foldl_patched_perm ((perm.filter _).map _) _
    | data => rw [order a]

namespace Session

theorem resolve_flatMap (s : Session) (xs : List Statement) (images : Images) :
    ({ s with pending := xs.flatMap Statement.actions } : Session).resolve = .ok images ↔
      (∀ x ∈ xs, x.Valued s.symbols) ∧
        images = ⟨s.sizes, s.program.patchAll (xs.map (Statement.patch s.symbols)),
          s.data.patchAll (xs.map (Statement.patch s.symbols))⟩ := by
  rw [resolve_eq_replay]
  constructor
  · intro resolved
    cases replayed : replay s.symbols (xs.flatMap Statement.actions) [] with
    | error fault =>
      simp only [replayed] at resolved
      contradiction
    | ok r =>
      obtain ⟨valued, rfl⟩ := (Statement.replay_flatMap s.symbols xs [] r).mp replayed
      simp only [replayed] at resolved
      exact ⟨valued, (Except.ok.inj resolved).symm⟩
  · rintro ⟨valued, rfl⟩
    simp only [(Statement.replay_flatMap s.symbols xs [] _).mpr ⟨valued, rfl⟩]
    rfl

/-- Deferred statements can be put in any other order in which the stores to each data word
keep theirs: both orders assemble to the same memories, or neither assembles. -/
theorem resolve_reordered (s : Session) (xs ys : List Statement)
    (queued : s.pending = xs.flatMap Statement.actions) (perm : xs.Perm ys)
    (order : ∀ a, (xs.filter fun x => x.memory = .data ∧ x.address = a) =
      ys.filter fun y => y.memory = .data ∧ y.address = a) (images : Images) :
    ({ s with pending := ys.flatMap Statement.actions } : Session).resolve = .ok images ↔
      s.resolve = .ok images := by
  have original : s = { s with pending := xs.flatMap Statement.actions } := by rw [← queued]
  have patches := perm.map (Statement.patch s.symbols)
  have seen : ∀ a, Patch.valuesAt .data a (xs.map (Statement.patch s.symbols)) =
      Patch.valuesAt .data a (ys.map (Statement.patch s.symbols)) := by
    intro a
    rw [Patch.valuesAt_map, Patch.valuesAt_map, order a]
  rw [original, resolve_flatMap, resolve_flatMap, Image.patchAll_perm _ patches seen,
    Image.patchAll_perm _ patches seen]
  simp only [perm.mem_iff]

/-- Two patches of a program word, and between them two stores to one data word. -/
def entangled (a b : Address) : List Statement :=
  [⟨.symbol "offset" 2, .program, a, 2⟩, ⟨.literal 7 3, .data, b, 3⟩,
    ⟨.unary .negate false 4 (.literal 9 4), .program, a, 4⟩,
    ⟨.binary .subtract true 5 (.symbol "offset" 5) (.literal 1 5), .data, b, 5⟩]

def disentangled (a b : Address) : List Statement :=
  [⟨.literal 7 3, .data, b, 3⟩,
    ⟨.binary .subtract true 5 (.symbol "offset" 5) (.literal 1 5), .data, b, 5⟩,
    ⟨.unary .negate false 4 (.literal 9 4), .program, a, 4⟩, ⟨.symbol "offset" 2, .program, a, 2⟩]

theorem resolve_reordered_entangled :
    let s := (start {}).calls (.place .program 0x3FF0003 1 :: .define ⟨"offset", -2, 1⟩ ::
      ((entangled 0 5).flatMap Statement.actions).map .defer)
    ∃ images, s.resolve = .ok images ∧
      ({ s with pending := (disentangled 0 5).flatMap Statement.actions } : Session).resolve = .ok images ∧
      (images.program.cell 0).literal = 0xFFF8 ∧ (images.data.cell 5).literal = 0xFFFD := by
  intro s
  have perm : (entangled 0 5).Perm (disentangled 0 5) :=
    (((List.Perm.swap _ _ []).cons _).cons _).trans (List.perm_append_singleton _ _).symm
  obtain ⟨images, resolved⟩ : ∃ images, s.resolve = .ok images := ⟨_, rfl⟩
  have cells : s.resolve.map (fun images => ((images.program.cell 0).literal, (images.data.cell 5).literal)) =
      .ok (0xFFF8, 0xFFFD) := rfl
  rw [resolved, Except.map, Except.ok.injEq, Prod.mk.injEq] at cells
  exact ⟨images, resolved, (resolve_reordered s _ _ rfl perm (fun _ => rfl) images).mpr resolved,
    cells⟩

end Session
end TwoPass
