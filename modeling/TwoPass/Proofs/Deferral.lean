import TwoPass.Proofs.CellFormat
import TwoPass.Proofs.Evaluation
import TwoPass.Proofs.Replay
import TwoPass.Proofs.Waiting

/-! Deferring an expression that could have been evaluated at once makes no difference.
Its symbols keep their values until pass 2, its actions leave the stack as they found
it, and its store reaches the cell that the placeholder was placed in. -/
namespace TwoPass

namespace Image
variable {m : Memory}

/-- A word that is placed as a placeholder and patched is the word placed at once. -/
theorem append_patched {image : Image m} {now later v : Value} {a : Address} {line : Line}
    (same : Cell.placed m now = .patched m (.placed m later) v) (room : image.next line = .ok a)
    (other : Line) :
    (image.append now line).2 = (image.append later other).2.store a v := by
  have placed := next_ok_line room other
  apply ext
  · simp
  · rw [cursor_append_of_ok room, cursor_store, cursor_append_of_ok placed]
  · intro b
    rw [cell_append_of_ok room, cell_store, cell_append_of_ok placed, cell_append_of_ok placed]
    by_cases here : a = b
    · simp [here, same]
    · simp [here]

theorem appendAll_patched {now later v : Value} {n : Memory} {a : Address} {line : Line}
    (image : Image m) (same : Cell.placed n now = .patched n (.placed n later) v)
    (room : n = m → image.next line = .ok a) (other : Line) {extra : List Call}
    (wordless : extra.filterMap (Call.word? m) = []) (further : List Call) :
    image.appendAll ((Call.place n now line :: further).filterMap (Call.word? m)) =
      (image.appendAll ((Call.place n later other :: (extra ++ further)).filterMap
        (Call.word? m))).patch ⟨n, a, v⟩ := by
  by_cases here : n = m
  · subst here
    have placed := next_ok_line (room rfl) other
    have used : ((image.append later other).2.cell a).used = true := by
      rw [cell_append_of_ok placed]
      simp only [if_true]
      rfl
    simp only [List.filterMap_cons, List.filterMap_append, wordless, List.nil_append, Call.word?,
      if_true, appendAll_cons, patch]
    rw [append_patched same (room rfl) other, appendAll_store used]
  · simp [Call.word?, patch, here, wordless]

end Image

/-- What a front end does with an expression whose value it does not know yet: it
defers the tree, and then the store of its value. -/
def Expr.deferral (e : Expr) (m : Memory) (a : Address) (line : Line) : List Call :=
  e.actions.map .defer ++ [.defer ⟨.store m a, line⟩]

theorem Expr.replay_deferral {symbols : SymbolTable} {e : Expr} {v : Value}
    (valued : e.eval symbols = .ok v) (m : Memory) (a : Address) (line : Line)
    (rest : List Action) (stack : Stack) :
    replay symbols (e.actions ++ [⟨.store m a, line⟩] ++ rest) stack =
      (replay symbols rest stack).map fun r => (⟨m, a, v⟩ :: r.1, r.2) := by
  rw [List.append_assoc, replay_append, replay_actions valued]
  simp only [Except.bind, List.cons_append, List.nil_append, replay, Action.perform, Stack.pop, Except.map]
  cases replay symbols rest stack <;> rfl

/-- A deferral places no words, defines no symbols, and leaves its actions pending. -/
theorem Expr.filterMap_deferral (e : Expr) (m : Memory) (a : Address) (line : Line) :
    (∀ n, (e.deferral m a line).filterMap (Call.word? n) = []) ∧
      (e.deferral m a line).filterMap Call.symbol? = [] ∧
      (e.deferral m a line).filterMap Call.action? = e.actions ++ [⟨.store m a, line⟩] := by
  refine ⟨fun n => ?_, ?_, ?_⟩
  · simp [deferral, List.filterMap_map, Function.comp_def, Call.word?]
  · simp [deferral, List.filterMap_map, Function.comp_def, Call.symbol?]
  · simp [deferral, List.filterMap_map, Function.comp_def, Call.action?]

namespace Session

/-- Deferring the expression and patching the placeholder assembles to what placing
its value does, unless an action that is pending already overwrites the placed value. -/
theorem resolve_deferral {s : Session} {e : Expr} {m : Memory} {now later v : Value} {a : Address}
    {line : Line} (valued : e.eval s.symbols = .ok v)
    (same : Cell.placed m now = .patched m (.placed m later) v)
    (room : (s.image m).next line = .ok a)
    (kept : m = .program ∨ ∀ action ∈ s.pending, action.work ≠ .store m a)
    (other storing : Line) (further : List Call) :
    (s.calls (.place m now line :: further)).resolve =
      (s.calls (.place m later other :: (e.deferral m a storing ++ further))).resolve := by
  obtain ⟨words, symbols, actions⟩ := e.filterMap_deferral m a storing
  have program := s.program.appendAll_patched same (fun here => here ▸ room) other (words .program) further
  have data := s.data.appendAll_patched same (fun here => here ▸ room) other (words .data) further
  rw [calls_eq, calls_eq, resolve_eq_replay, resolve_eq_replay]
  simp only [program, data]
  simp only [List.filterMap_cons, List.filterMap_append, symbols, actions, Call.symbol?,
    Call.action?, List.nil_append]
  -- Both runs begin with the actions that were pending before. Only then does the deferred
  -- store follow, while the value placed at once has been through those actions.
  rw [replay_append, replay_append]
  cases before : replay ⟨s.symbols.symbols ++ further.filterMap Call.symbol?⟩ s.pending [] with
  | error fault => rfl
  | ok r =>
    have unstored : m = .program ∨ Patch.valuesAt m a r.1 = [] := by
      refine kept.imp_right fun unpatched => List.eq_nil_of_length_eq_zero ?_
      rw [Machine.length_valuesAt_of_replay before, List.countP_eq_zero]
      simpa using unpatched
    have moved : ∀ {n} (image : Image n),
        (image.patch ⟨m, a, v⟩).patchAll r.1 = (image.patchAll r.1).patch ⟨m, a, v⟩ :=
      fun image => image.patchAll_patch ⟨m, a, v⟩ unstored
    simp only [Except.bind]
    rw [Expr.replay_deferral (Expr.eval_append valued _)]
    cases replay ⟨s.symbols.symbols ++ further.filterMap Call.symbol?⟩
        (further.filterMap Call.action?) r.2 with
    | error fault => rfl
    | ok q => simp only [Except.map, Image.patchAll_append, Image.patchAll_cons, moved]

end Session

def Value.withLiteral (word : Value) (literal : BitVec 16) : Value :=
  word.extractLsb' 16 16 ++ literal

theorem Value.toNat_withLiteral (word : Value) (literal : BitVec 16) :
    (withLiteral word literal).toNat = word.toNat / 2 ^ 16 * 2 ^ 16 + literal.toNat := by
  have small : word.toNat / 2 ^ 16 < 2 ^ 16 := by
    have bound := word.isLt
    omega
  rw [withLiteral, BitVec.toNat_append, ← Nat.shiftLeft_add_eq_or_of_lt literal.isLt,
    BitVec.extractLsb'_toNat, Nat.shiftRight_eq_div_pow, Nat.shiftLeft_eq, Nat.mod_eq_of_lt small]

/-- Adding a value to the literal before a word is placed is patching it afterwards. -/
theorem Cell.placed_withLiteral (word v : Value) :
    placed .program (.withLiteral word (word.setWidth 16 + v.setWidth 16)) =
      patched .program (placed .program word) v := by
  have sum := Value.toNat_withLiteral word (word.setWidth 16 + v.setWidth 16)
  have low := (word.setWidth 16 + v.setWidth 16).isLt
  have upper : (placed .program (.withLiteral word (word.setWidth 16 + v.setWidth 16))).upper =
      (placed .program word).upper := by
    apply BitVec.eq_of_toNat_eq
    rw [← value_div, ← value_div, value_placed, value_placed, sum]
    simp only [Memory.cellBits]
    omega
  have literal : (placed .program (.withLiteral word (word.setWidth 16 + v.setWidth 16))).literal =
      (placed .program word).literal + v.setWidth 16 := by
    apply BitVec.eq_of_toNat_eq
    rw [literal_placed, sum, BitVec.toNat_add, BitVec.toNat_add, literal_placed, BitVec.toNat_setWidth]
    omega
  rw [patched, withLiteral, ← literal, ← upper]
  rfl

namespace Session

/-- An expression that has a value during pass 1 can be evaluated there or deferred. -/
theorem immediate_eq_deferred (s : Session) (e : Expr) (v : Value)
    (valued : e.eval s.symbols = .ok v) (a : Address) (line other storing : Line)
    (further : List Call) :
    (∀ placeholder, (s.place .data v line).1 = .ok a →
      (∀ action ∈ s.pending, action.work ≠ .store .data a) →
      (s.place .data placeholder other).1 = .ok a ∧
      (s.calls (.place .data v line :: further)).resolve =
        (s.calls (.place .data placeholder other :: (e.deferral .data a storing ++ further))).resolve) ∧
    ∀ word,
      let sum := Value.withLiteral word (word.setWidth 16 + v.setWidth 16)
      (s.place .program sum line).1 = .ok a →
      (s.place .program word other).1 = .ok a ∧
      (s.calls (.place .program sum line :: further)).resolve =
        (s.calls (.place .program word other :: (e.deferral .program a storing ++ further))).resolve := by
  have answer : ∀ m w l, (s.place m w l).1 = (s.image m).next l := by
    intro m w l
    cases m <;> simp [place, image]
  simp only [answer]
  constructor
  · intro placeholder room unpatched
    exact ⟨Image.next_ok_line room other,
      resolve_deferral valued rfl room (.inr unpatched) other storing further⟩
  · intro word room
    exact ⟨Image.next_ok_line room other,
      resolve_deferral valued (Cell.placed_withLiteral word v) room (.inl rfl) other storing further⟩

/-- The value is 5 - 7, of a symbol defined before. The pending 9 is for the store after
the deferral, which goes to the same program word. -/
theorem immediate_eq_deferred_negative :
    let s := (start {}).calls [.define ⟨"seven", 7, 1⟩, .defer ⟨.literal 9, 2⟩]
    let e := Expr.binary .subtract true 3 (.literal 5 3) (.symbol "seven" 3)
    let further := [Call.define ⟨"seven", 8, 4⟩, .defer ⟨.store .program 0, 5⟩]
    e.eval s.symbols = .ok (-2) ∧
    (s.calls (.place .data (-2) 3 :: further)).resolve =
      (s.calls (.place .data 4321 6 :: (e.deferral .data 0 6 ++ further))).resolve ∧
    (s.calls (.place .program 0x123FFFF 3 :: further)).resolve =
      (s.calls (.place .program 0x1230001 6 :: (e.deferral .program 0 6 ++ further))).resolve := by
  intro s e further
  have agree := immediate_eq_deferred s e (-2) rfl 0 3 6 6 further
  exact ⟨rfl, (agree.1 4321 rfl (by decide)).2, (agree.2 0x1230001 rfl).2⟩

end Session
end TwoPass
