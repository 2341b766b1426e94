import TwoPass.Proofs.Allocation

/-! The order of pass 1 between its parts does not matter. Each part of a session sees the
calls made to it, and a table of symbols only its first definition of every name. -/
namespace TwoPass

/-- Every name has the same definition in effect; the tables may list them in different
orders. -/
def SymbolTable.Agrees (t u : SymbolTable) : Prop :=
  ∀ name, t.find? name = u.find? name

theorem SymbolTable.agrees_of_filter {xs ys : List Symbol}
    (same : ∀ name, xs.filter (·.name = name) = ys.filter (·.name = name)) :
    Agrees ⟨xs⟩ ⟨ys⟩ := by
  intro name
  simp only [find?]
  rw [← List.head?_filter, same, List.head?_filter]

theorem Action.perform_congr {t u : SymbolTable} (agree : t.Agrees u) (action : Action) (stack : Stack) :
    action.perform t stack = action.perform u stack := by
  obtain ⟨work, line⟩ := action
  cases work with
  | symbol name => simp only [perform, SymbolTable.lookup, SymbolTable.value?, agree name]
  | literal v => rfl
  | apply operator swapped => cases operator <;> rfl
  | store m a => rfl

/-- A replay looks at the definitions in effect only. -/
theorem replay_congr {t u : SymbolTable} (agree : t.Agrees u) (actions : List Action) (stack : Stack) :
    replay t actions stack = replay u actions stack := by
  induction actions generalizing stack with
  | nil => rfl
  | cons action actions ih => simp only [replay, action.perform_congr agree, ih]

/-- What a call that places a word in this memory is answered. -/
def Call.answer? (m : Memory) : Call × Option (Except Fault Address) → Option (Except Fault Address)
  | (.place n _ _, answer) => if n = m then answer else none
  | _ => none

namespace Session

/-- What the calls that place words in this memory are answered, oldest first. -/
def answers (s : Session) (m : Memory) (sequence : List Call) : List (Except Fault Address) :=
  (s.transcript sequence).filterMap (Call.answer? m)

theorem answer_call (s : Session) (m : Memory) (c : Call) :
    Call.answer? m (c, (s.call c).1) = (c.word? m).map fun w => (s.image m).next w.2 := by
  cases c with
  | place n v line =>
    by_cases same : n = m
    · subst same
      cases n <;> simp [Call.answer?, Call.word?, call, place, image]
    · simp [Call.answer?, Call.word?, same]
  | define symbol => rfl
  | defer action => rfl

/-- A session answers what the memory alone would answer. -/
theorem answers_eq (s : Session) (m : Memory) (sequence : List Call) :
    s.answers m sequence = (s.image m).answers
      ((sequence.filterMap (Call.word? m)).map fun w => .append w.1 w.2) := by
  induction sequence generalizing s with
  | nil => rfl
  | cons c rest ih =>
    have first : s.answers m (c :: rest) =
        (Call.answer? m (c, (s.call c).1)).toList ++ (s.call c).2.answers m rest := by
      simp only [answers, transcript, List.filterMap_cons]
      cases Call.answer? m (c, (s.call c).1) <;> rfl
    rw [first, ih, answer_call, image_call]
    cases word : c.word? m with
    | none => simp [word]
    | some w => simp [word, Image.answers]

theorem resolve_congr {s t : Session} (sizes : s.sizes = t.sizes) (images : ∀ m, s.image m = t.image m)
    (symbols : s.symbols.Agrees t.symbols) (pending : s.pending = t.pending) :
    s.resolve = t.resolve := by
  have program : s.program = t.program := images .program
  have data : s.data = t.data := images .data
  rw [resolve_eq_replay, resolve_eq_replay, sizes, program, data, pending, replay_congr symbols]

/-- Calls to different parts of a session can be made in any order, and so can definitions
of different names: every word is answered the same, and the assembly comes out the same. -/
theorem interleaving_irrelevant (sizes : Sizes) (xs ys : List Call)
    (words : ∀ m, xs.filterMap (Call.word? m) = ys.filterMap (Call.word? m))
    (actions : xs.filterMap Call.action? = ys.filterMap Call.action?)
    (symbols : ∀ name, (xs.filterMap Call.symbol?).filter (·.name = name) =
      (ys.filterMap Call.symbol?).filter (·.name = name)) :
    (∀ m, (start sizes).answers m xs = (start sizes).answers m ys) ∧
    ((start sizes).calls xs).resolve = ((start sizes).calls ys).resolve ∧
    ((start sizes).calls xs).resolve.map Images.usage =
      ((start sizes).calls ys).resolve.map Images.usage := by
  have same : ((start sizes).calls xs).resolve = ((start sizes).calls ys).resolve := by
    apply resolve_congr
    · rw [calls_eq, calls_eq]
    · intro m
      rw [image_calls, image_calls, words m]
    · rw [calls_eq, calls_eq]
      exact SymbolTable.agrees_of_filter symbols
    · rw [calls_eq, calls_eq, actions]
  refine ⟨fun m => ?_, same, by rw [same]⟩
  rw [answers_eq, answers_eq, words m]

/-- A data word that waits for two symbols, one of them defined twice. -/
def forwardReferences (a : Address) : List Call :=
  [.defer ⟨.symbol "limit", 1⟩, .defer ⟨.symbol "base", 1⟩,
    .defer ⟨.apply (.binary .subtract) false, 1⟩, .defer ⟨.store .data a, 1⟩, .place .data 0 1,
    .define ⟨"base", 5, 2⟩, .place .program 7 3, .define ⟨"limit", -3, 4⟩, .define ⟨"base", 6, 5⟩]

/-- The same with all definitions in front, those of different names in another order. -/
def backwardReferences (a : Address) : List Call :=
  [.define ⟨"limit", -3, 4⟩, .define ⟨"base", 5, 2⟩, .define ⟨"base", 6, 5⟩, .place .program 7 3,
    .place .data 0 1, .defer ⟨.symbol "limit", 1⟩, .defer ⟨.symbol "base", 1⟩,
    .defer ⟨.apply (.binary .subtract) false, 1⟩, .defer ⟨.store .data a, 1⟩]

theorem interleaving_irrelevant_forward :
    let xs := forwardReferences 0
    let ys := backwardReferences 0
    xs.filterMap Call.symbol? ≠ ys.filterMap Call.symbol? ∧
    (∀ m, (start {}).answers m xs = (start {}).answers m ys) ∧
    ((start {}).calls xs).resolve = ((start {}).calls ys).resolve ∧
    ∃ images, ((start {}).calls ys).resolve = .ok images ∧ (images.data.cell 0).value = 0xFFF8 := by
  intro xs ys
  have forward : xs.filterMap Call.symbol? =
      [⟨"base", 5, 2⟩, ⟨"limit", -3, 4⟩, ⟨"base", 6, 5⟩] := rfl
  have backward : ys.filterMap Call.symbol? =
      [⟨"limit", -3, 4⟩, ⟨"base", 5, 2⟩, ⟨"base", 6, 5⟩] := rfl
  have symbols : ∀ name, (xs.filterMap Call.symbol?).filter (·.name = name) =
      (ys.filterMap Call.symbol?).filter (·.name = name) := by
    intro name
    rw [forward, backward]
    by_cases limit : "limit" = name
    · subst limit
      rfl
    · simp [List.filter_cons, limit]
  obtain ⟨answered, resolved, -⟩ := interleaving_irrelevant {} xs ys
    (fun m => by cases m <;> rfl) rfl symbols
  exact ⟨by decide, answered, resolved, _, rfl, by decide⟩

end Session
end TwoPass
