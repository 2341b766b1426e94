import Mathlib.Data.List.Forall2
import TwoPass.Proofs.CellFormat
import TwoPass.Proofs.Operands
import TwoPass.Recording.Call

/-! Two replays whose values differ above the low 16 bits only. Ring operations and bitwise
ones keep the low bits apart from the others, and a store takes nothing but the low bits,
so both replays end with the same memories or the same fault. -/
namespace TwoPass

/-- Equal modulo 2 ^ 16, whether the values are read as signed or not. -/
def Value.Congruent (v w : Value) : Prop :=
  v.toInt % 2 ^ 16 = w.toInt % 2 ^ 16

theorem Value.congruent_iff {v w : Value} : v.Congruent w ↔ v.setWidth 16 = w.setWidth 16 := by
  rw [Congruent, v.toInt_emod_literal, w.toInt_emod_literal, ← BitVec.toNat_inj, BitVec.toNat_setWidth,
    BitVec.toNat_setWidth, Int.natCast_inj]

/-- The operators that work modulo every power of two. -/
def modularOperators : List Operator :=
  [.unary .negate, .unary .complement, .binary .or, .binary .xor, .binary .and, .binary .add,
    .binary .subtract, .binary .multiply]

theorem UnaryOperator.eval_congruent (op : UnaryOperator) {v w : Value} (low : v.Congruent w) :
    Value.Congruent (op.eval v) (op.eval w) := by
  rw [Value.congruent_iff] at low ⊢
  cases op with
  | negate => rw [eval, eval, BitVec.setWidth_neg_of_le (by omega), BitVec.setWidth_neg_of_le (by omega), low]
  | complement => rw [eval, eval, BitVec.setWidth_not (by omega), BitVec.setWidth_not (by omega), low]

/-- The low bits of sums, products and bitwise combinations come from low bits. -/
theorem Value.congruent_binary {l l' r r' : Value} (left : l.Congruent l') (right : r.Congruent r') :
    Congruent (l ||| r) (l' ||| r') ∧ Congruent (l ^^^ r) (l' ^^^ r') ∧ Congruent (l &&& r) (l' &&& r') ∧
      Congruent (l + r) (l' + r') ∧ Congruent (l - r) (l' - r') ∧ Congruent (l * r) (l' * r') := by
  rw [congruent_iff] at left right
  have half : 16 ≤ 32 := by omega
  simp only [congruent_iff, BitVec.sub_eq_add_neg, BitVec.setWidth_or, BitVec.setWidth_xor,
    BitVec.setWidth_and, BitVec.setWidth_add _ _ half, BitVec.setWidth_neg_of_le half,
    BitVec.setWidth_mul _ _ half, left, right, and_self]

theorem BinaryOperator.eval_congruent {op : BinaryOperator} (modular : .binary op ∈ modularOperators)
    {l l' r r' : Value} (left : l.Congruent l') (right : r.Congruent r') (line : Line) :
    ∃ v w, op.eval l r line = .ok v ∧ op.eval l' r' line = .ok w ∧ v.Congruent w := by
  obtain ⟨or, xor, and, add, subtract, multiply⟩ := Value.congruent_binary left right
  cases op with
  | or => exact ⟨_, _, rfl, rfl, or⟩
  | xor => exact ⟨_, _, rfl, rfl, xor⟩
  | and => exact ⟨_, _, rfl, rfl, and⟩
  | add => exact ⟨_, _, rfl, rfl, add⟩
  | subtract => exact ⟨_, _, rfl, rfl, subtract⟩
  | multiply => exact ⟨_, _, rfl, rfl, multiply⟩
  | shiftLeft | shiftRight | divide | modulus | power => simp [modularOperators] at modular

/-- The same fault, or results that are related. -/
inductive Matching {α β : Type} (R : α → β → Prop) : Except Fault α → Except Fault β → Prop
  | fault (fault : Fault) : Matching R (.error fault) (.error fault)
  | result {x : α} {y : β} (related : R x y) : Matching R (.ok x) (.ok y)

theorem Matching.map {α β γ δ : Type} {R : α → β → Prop} {S : γ → δ → Prop} {f : α → γ} {g : β → δ}
    {x : Except Fault α} {y : Except Fault β} (outcomes : Matching R x y)
    (related : ∀ {a b}, R a b → S (f a) (g b)) : Matching S (x.map f) (y.map g) := by
  cases outcomes with
  | fault fault => exact .fault fault
  | result here => exact .result (related here)

theorem Matching.map_eq {α β γ : Type} {R : α → β → Prop} {f : α → γ} {g : β → γ}
    {x : Except Fault α} {y : Except Fault β} (outcomes : Matching R x y)
    (same : ∀ {a b}, R a b → f a = g b) : x.map f = y.map g := by
  cases outcomes with
  | fault fault => rfl
  | result here => exact congrArg Except.ok (same here)

/-- The same name, and the same low bits. -/
structure Symbol.Congruent (x y : Symbol) : Prop where
  name : x.name = y.name
  value : x.value.Congruent y.value

/-- The same names in the same order, with the same low bits. -/
def SymbolTable.Congruent (t u : SymbolTable) : Prop :=
  List.Forall₂ Symbol.Congruent t.symbols u.symbols

theorem SymbolTable.lookup_congruent {t u : SymbolTable} (tables : t.Congruent u) (name : String)
    (line : Line) : Matching Value.Congruent (t.lookup name line) (u.lookup name line) := by
  obtain ⟨xs⟩ := t
  obtain ⟨ys⟩ := u
  have listed : List.Forall₂ Symbol.Congruent xs ys := tables
  simp only [lookup, value?, find?]
  clear tables
  induction listed with
  | nil => exact .fault _
  | @cons x y xs ys symbols rest ih =>
    rw [List.find?_cons, List.find?_cons, symbols.name]
    cases decide (y.name = name) with
    | true => exact .result symbols.value
    | false => exact ih

/-- The same action, up to the upper bits of a literal. -/
inductive Action.Congruent : Action → Action → Prop
  | same (action : Action) : Congruent action action
  | literal {v w : Value} (low : v.Congruent w) (line : Line) :
      Congruent ⟨.literal v, line⟩ ⟨.literal w, line⟩

/-- If the action applies an operator, it is one of the modular ones. -/
def Action.Modular (action : Action) : Prop :=
  match action.work with
  | .apply operator _ => operator ∈ modularOperators
  | _ => True

instance : DecidablePred Action.Modular
  | ⟨.apply operator _, _⟩ => inferInstanceAs (Decidable (operator ∈ modularOperators))
  | ⟨.literal _, _⟩ | ⟨.symbol _, _⟩ | ⟨.store _ _, _⟩ => .isTrue trivial

inductive Effect.Congruent : Effect → Effect → Prop
  | push {v w : Value} (low : v.Congruent w) : Congruent (.push v) (.push w)
  | store (m : Memory) (a : Address) {v w : Value} (low : v.Congruent w) :
      Congruent (.store m a v) (.store m a w)

section
variable {t u : SymbolTable} (tables : t.Congruent u)
variable {xs ys : Stack} (values : List.Forall₂ Value.Congruent xs ys)
include values

/-- Both stacks are too low for a binary operator, or its operands are congruent. -/
theorem Action.binary_congruent {op : BinaryOperator} (modular : .binary op ∈ modularOperators)
    (swapped : Bool) (line : Line) :
    Matching Effect.Congruent (perform ⟨.apply (.binary op) swapped, line⟩ t xs).1
      (perform ⟨.apply (.binary op) swapped, line⟩ u ys).1 := by
  cases values with
  | nil => exact .fault _
  | cons top rest =>
    cases rest with
    | nil => exact .fault _
    | cons next rest =>
      cases swapped with
      | false =>
        obtain ⟨v, w, first, second, low⟩ := op.eval_congruent modular next top line
        simp only [perform, Stack.popTwo, Except.bind, first, second]
        exact .result (.push low)
      | true =>
        obtain ⟨v, w, first, second, low⟩ := op.eval_congruent modular top next line
        simp only [perform, Stack.popTwo, Except.bind, first, second]
        exact .result (.push low)

include tables

theorem Action.effect_congruent {action : Action} (modular : action.Modular) :
    Matching Effect.Congruent (action.perform t xs).1 (action.perform u ys).1 := by
  obtain ⟨work, line⟩ := action
  cases work with
  | literal v => exact .result (.push rfl)
  | symbol name => exact (SymbolTable.lookup_congruent tables name line).map .push
  | apply operator swapped =>
    cases operator with
    | unary op =>
      cases values with
      | nil => exact .fault _
      | cons top rest => exact .result (.push (op.eval_congruent top))
    | binary op => exact binary_congruent values modular swapped line
  | store m a =>
    cases values with
    | nil => exact .fault _
    | cons top rest => exact .result (.store m a top)

/-- One step of both replays: they fail alike, or go on with congruent values. -/
theorem Action.perform_congruent {action other : Action} (same : action.Congruent other)
    (modular : action.Modular) :
    Matching Effect.Congruent (action.perform t xs).1 (other.perform u ys).1 ∧
      List.Forall₂ Value.Congruent (action.perform t xs).2 (other.perform u ys).2 := by
  cases same with
  | same action =>
    refine ⟨effect_congruent tables values modular, ?_⟩
    rw [perform_stack, perform_stack]
    exact List.forall₂_drop _ values
  | literal low line => exact ⟨.result (.push low), values⟩

end

structure Patch.Congruent (p q : Patch) : Prop where
  memory : p.memory = q.memory
  address : p.address = q.address
  value : p.value.Congruent q.value

/-- Whole replays fail alike, or make patches that are congruent one by one. -/
theorem replay_congruent {t u : SymbolTable} (tables : t.Congruent u) {actions others : List Action}
    (same : List.Forall₂ Action.Congruent actions others) (modular : ∀ action ∈ actions, action.Modular)
    {xs ys : Stack} (values : List.Forall₂ Value.Congruent xs ys) :
    Matching (fun r s => List.Forall₂ Patch.Congruent r.1 s.1) (replay t actions xs)
      (replay u others ys) := by
  induction same generalizing xs ys with
  | nil => exact .result .nil
  | @cons action other actions others first rest ih =>
    rw [List.forall_mem_cons] at modular
    obtain ⟨effect, left⟩ := Action.perform_congruent tables values first modular.1
    simp only [replay]
    generalize action.perform t xs = here at effect left ⊢
    generalize other.perform u ys = there at effect left ⊢
    obtain ⟨outcome, xs⟩ := here
    obtain ⟨outcome', ys⟩ := there
    cases effect with
    | fault fault => exact .fault fault
    | result related =>
      cases related with
      | push low => exact ih modular.2 (.cons low left)
      | store m a low => exact (ih modular.2 left).map (.cons ⟨rfl, rfl, low⟩)

/-- A store takes the low bits of a value, whatever its memory. -/
theorem Cell.patched_congruent (m : Memory) (c : Cell) {v w : Value} (low : v.Congruent w) :
    patched m c v = patched m c w := by
  have literal := Value.congruent_iff.mp low
  cases m with
  | program => rw [patched, patched, literal]
  | data =>
    have masked : v &&& Memory.data.wordMask = w &&& Memory.data.wordMask := by
      rw [← BitVec.toNat_inj, BitVec.toNat_setWidth, BitVec.toNat_setWidth] at literal
      apply BitVec.eq_of_toNat_eq
      rw [Memory.toNat_and_wordMask, Memory.toNat_and_wordMask]
      exact literal
    rw [patched_data, patched_data, placed, placed, masked]

theorem Image.store_congruent {m : Memory} (image : Image m) (a : Address) {v w : Value}
    (low : v.Congruent w) : image.store a v = image.store a w := by
  apply ext
  · simp
  · simp
  · intro b
    rw [cell_store, cell_store, Cell.patched_congruent m _ low]

theorem Image.patchAll_congruent {m : Memory} (image : Image m) {ps qs : List Patch}
    (patches : List.Forall₂ Patch.Congruent ps qs) : image.patchAll ps = image.patchAll qs := by
  induction patches generalizing image with
  | nil => rfl
  | @cons p q ps qs first rest ih =>
    rw [patchAll_cons, patchAll_cons, patch, patch, first.memory, first.address,
      image.store_congruent q.address first.value, ih]

namespace Session

/-- Assembling sees only the low 16 bits of symbols and literals, as long as no shift,
division or power looks at the others. -/
theorem resolve_congruent (s t : Session) (sizes : s.sizes = t.sizes)
    (images : ∀ m, s.image m = t.image m) (symbols : s.symbols.Congruent t.symbols)
    (pending : List.Forall₂ Action.Congruent s.pending t.pending)
    (modular : ∀ action ∈ s.pending, action.Modular) : s.resolve = t.resolve := by
  have program : s.program = t.program := images .program
  have data : s.data = t.data := images .data
  have replayed := replay_congruent symbols pending modular .nil
  rw [resolve_eq_replay, resolve_eq_replay, sizes, program, data]
  apply replayed.map_eq
  intro r q patches
  rw [Image.patchAll_congruent _ patches, Image.patchAll_congruent _ patches]

/-- A backward jump by an offset that is counted from the symbol, and a data word. -/
def jump (a : Address) (back offset mask : Value) : List Call :=
  [.define ⟨"back", back, 1⟩, .place .program 0x2AA0010 2, .defer ⟨.literal offset, 2⟩,
    .defer ⟨.symbol "back", 2⟩, .defer ⟨.apply (.binary .subtract) true, 2⟩, .defer ⟨.store .program a, 2⟩,
    .defer ⟨.symbol "back", 3⟩, .defer ⟨.literal mask, 3⟩, .defer ⟨.apply (.binary .and) false, 3⟩,
    .defer ⟨.apply (.unary .complement) false, 3⟩, .defer ⟨.store .data a, 3⟩]

/-- An offset of -3 is as good as one of 65533. -/
theorem resolve_congruent_jump :
    let s := (start {}).calls (jump 0 (-3) 5 0xFF)
    let t := (start {}).calls (jump 0 0xFFFD 0x70005 0xFFFF00FF)
    s.resolve = t.resolve ∧ ∃ images, s.resolve = .ok images ∧
      (images.program.cell 0).literal = 8 ∧ (images.data.cell 0).literal = 0xFF02 := by
  intro s t
  have back : Value.Congruent (-3) 0xFFFD := rfl
  have offset : Value.Congruent 5 0x70005 := rfl
  have mask : Value.Congruent 0xFF 0xFFFF00FF := rfl
  have pending : List.Forall₂ Action.Congruent s.pending t.pending :=
    .cons (.literal offset 2) (.cons (.same _) (.cons (.same _) (.cons (.same _) (.cons (.same _)
      (.cons (.literal mask 3) (.cons (.same _) (.cons (.same _) (.cons (.same _) .nil))))))))
  have modular : ∀ action ∈ s.pending, action.Modular := by decide
  have images : ∀ m, s.image m = t.image m := by
    intro m
    cases m <;> rfl
  exact ⟨resolve_congruent s t rfl images (.cons ⟨rfl, back⟩ .nil) pending modular, _, rfl, rfl, rfl⟩

end Session
end TwoPass
