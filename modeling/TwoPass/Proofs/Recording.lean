import TwoPass.Recording.Call

/-! Pass 1 part by part. No call looks at more than one part of a session, so each
memory, the symbols and the deferred actions grow by the calls made to them. -/
namespace TwoPass

namespace Call

/-- The word and its line, for a call that places one in this memory. -/
def word? (m : Memory) : Call → Option (Value × Line)
  | .place n v line => if n = m then some (v, line) else none
  | _ => none

def symbol? : Call → Option Symbol
  | .define symbol => some symbol
  | _ => none

def action? : Call → Option Action
  | .defer action => some action
  | _ => none

/-- Where a call placed its word in this memory, if it was answered with an address. -/
def placement? (m : Memory) : Call × Option (Except Fault Address) → Option (Address × Value)
  | (.place n v _, some (.ok a)) => if n = m then some (a, v) else none
  | _ => none

end Call

namespace Image
variable {m : Memory}

def appendAll (image : Image m) (words : List (Value × Line)) : Image m :=
  words.foldl (fun image w => (image.append w.1 w.2).2) image

def placements (image : Image m) : List (Value × Line) → List (Address × Value)
  | [] => []
  | (v, line) :: rest =>
    match image.append v line with
    | (.ok a, next) => (a, v) :: next.placements rest
    | (.error _, next) => next.placements rest

@[simp] theorem appendAll_nil (image : Image m) : image.appendAll [] = image := rfl

@[simp] theorem appendAll_cons (image : Image m) (v : Value) (line : Line)
    (words : List (Value × Line)) :
    image.appendAll ((v, line) :: words) = (image.append v line).2.appendAll words := rfl

theorem next_ok {image : Image m} {line : Line} {a : Address} (room : image.next line = .ok a) :
    a.val = image.cursor ∧ (image.cell a).used = false := by
  unfold next at room
  split at room
  · simp only at room
    split at room
    · contradiction
    · rename_i unused
      cases room
      exact ⟨rfl, by simpa using unused⟩
  · contradiction

theorem ne_of_used {image : Image m} {line : Line} {a b : Address} (room : image.next line = .ok b)
    (used : (image.cell a).used = true) : b ≠ a := by
  rintro rfl
  have unused := (next_ok room).2
  rw [used] at unused
  contradiction

/-- No word goes to a cell in use. -/
theorem cell_append_of_used {image : Image m} {a : Address} (used : (image.cell a).used = true)
    (v : Value) (line : Line) : (image.append v line).2.cell a = image.cell a := by
  cases room : image.next line with
  | error fault => rw [append_of_error room]
  | ok b => rw [cell_append_of_ok room, if_neg (ne_of_used room used)]

/-- Without room the word leaves no trace; with room it is placed at the cursor. -/
theorem placements_cons (image : Image m) (v : Value) (line : Line) (words : List (Value × Line)) :
    (∃ fault, image.next line = .error fault ∧ (image.append v line).2 = image ∧
      image.placements ((v, line) :: words) = image.placements words) ∨
    ∃ a, image.next line = .ok a ∧ a.val = image.cursor ∧
      image.placements ((v, line) :: words) = (a, v) :: (image.append v line).2.placements words := by
  cases room : image.next line with
  | error fault =>
    refine .inl ⟨fault, rfl, append_of_error room v, ?_⟩
    simp [placements, append, room]
  | ok a =>
    refine .inr ⟨a, rfl, (next_ok room).1, ?_⟩
    simp [placements, append, room]

/-- Words are placed without gaps, from the cursor on. -/
theorem placements_addresses (image : Image m) (words : List (Value × Line)) :
    (image.placements words).map (fun p => p.1.val) =
      List.range' image.cursor (image.placements words).length := by
  induction words generalizing image with
  | nil => rfl
  | cons w words ih =>
    obtain ⟨v, line⟩ := w
    obtain ⟨fault, refused, same, eq⟩ | ⟨a, room, here, eq⟩ := image.placements_cons v line words
    · rw [eq, ih]
    · rw [eq, List.map_cons, ih, cursor_append_of_ok room, List.length_cons, List.range'_succ, here]

/-- Exactly the addresses from the cursor on have a word, as many as were placed. -/
theorem lookup_placements_eq_none_iff (image : Image m) (words : List (Value × Line)) (a : Address) :
    (image.placements words).lookup a = none ↔
      ¬(image.cursor ≤ a.val ∧ a.val < image.cursor + (image.placements words).length) := by
  rw [List.lookup_eq_none_iff, ← List.mem_range'_1, ← placements_addresses]
  constructor
  · intro absent member
    obtain ⟨p, placed, same⟩ := List.mem_map.mp member
    have different := absent p placed
    simp [Fin.ext_iff, same] at different
  · intro absent p placed
    have different : a ≠ p.1 := by
      rintro rfl
      exact absent (List.mem_map_of_mem placed)
    simpa using different

/-- A cell holds the word placed there, or what it held before. -/
theorem cell_appendAll (image : Image m) (words : List (Value × Line)) (a : Address) :
    (image.appendAll words).cell a =
      ((image.placements words).lookup a).elim (image.cell a) (.placed m) := by
  induction words generalizing image with
  | nil => rfl
  | cons w words ih =>
    obtain ⟨v, line⟩ := w
    rw [appendAll_cons, ih]
    obtain ⟨fault, refused, same, eq⟩ | ⟨b, room, here, eq⟩ := image.placements_cons v line words
    · rw [eq, same]
    · rw [eq, cell_append_of_ok room, List.lookup_cons]
      by_cases hit : b = a
      · subst hit
        have fresh : ((image.append v line).2.placements words).lookup b = none := by
          rw [lookup_placements_eq_none_iff, cursor_append_of_ok room]
          omega
        simp [fresh]
      · have other : (a == b) = false := by simpa using Ne.symm hit
        simp only [other, if_neg hit]

end Image

namespace Session

def transcript : Session → List Call → List (Call × Option (Except Fault Address))
  | _, [] => []
  | s, c :: rest => (c, (s.call c).1) :: (s.call c).2.transcript rest

/-- The words of this memory whose placing succeeded, with the addresses answered. -/
def placements (s : Session) (m : Memory) (sequence : List Call) : List (Address × Value) :=
  (s.transcript sequence).filterMap (Call.placement? m)

/-- Every part of a session after some calls is its part before them with the calls
made to it. -/
theorem calls_eq (s : Session) (sequence : List Call) :
    s.calls sequence =
      ⟨s.sizes, s.program.appendAll (sequence.filterMap (Call.word? .program)),
        s.data.appendAll (sequence.filterMap (Call.word? .data)),
        ⟨s.symbols.symbols ++ sequence.filterMap Call.symbol?⟩,
        s.pending ++ sequence.filterMap Call.action?⟩ := by
  induction sequence generalizing s with
  | nil => simp [calls]
  | cons c rest ih =>
    have unfolded : s.calls (c :: rest) = (s.call c).2.calls rest := rfl
    rw [unfolded, ih]
    cases c with
    | place m v line =>
      cases m <;>
        simp [call, place, Call.word?, Call.symbol?, Call.action?, List.filterMap_cons]
    | define symbol =>
      simp [call, define, SymbolTable.insert, Call.word?, Call.symbol?, Call.action?,
        List.filterMap_cons]
    | defer action => simp [call, defer, Call.word?, Call.symbol?, Call.action?, List.filterMap_cons]

theorem image_calls (s : Session) (m : Memory) (sequence : List Call) :
    (s.calls sequence).image m = (s.image m).appendAll (sequence.filterMap (Call.word? m)) := by
  rw [calls_eq]
  cases m <;> rfl

theorem image_call (s : Session) (m : Memory) (c : Call) :
    (s.call c).2.image m =
      (c.word? m).elim (s.image m) fun w => ((s.image m).append w.1 w.2).2 := by
  cases c with
  | place n v line => cases n <;> cases m <;> rfl
  | define symbol => cases m <;> rfl
  | defer action => cases m <;> rfl

theorem placement_call (s : Session) (m : Memory) (c : Call) :
    Call.placement? m (c, (s.call c).1) =
      (c.word? m).bind fun w => ((s.image m).next w.2).toOption.map (·, w.1) := by
  cases c with
  | place n v line =>
    have answered : (s.call (.place n v line)).1 = some ((s.image n).next line) := by
      cases n <;> simp [call, place, image]
    rw [answered]
    by_cases same : n = m
    · subst same
      cases room : (s.image n).next line <;>
        simp [Call.placement?, Call.word?, Except.toOption, room]
    · cases (s.image n).next line <;> simp [Call.placement?, Call.word?, same]
  | define symbol => rfl
  | defer action => rfl

/-- What a session places in a memory is what the memory alone would place. -/
theorem placements_eq (s : Session) (m : Memory) (sequence : List Call) :
    s.placements m sequence = (s.image m).placements (sequence.filterMap (Call.word? m)) := by
  induction sequence generalizing s with
  | nil => rfl
  | cons c rest ih =>
    have first : s.placements m (c :: rest) =
        (Call.placement? m (c, (s.call c).1)).toList ++ (s.call c).2.placements m rest := by
      simp only [placements, transcript, List.filterMap_cons]
      cases Call.placement? m (c, (s.call c).1) <;> rfl
    rw [first, ih, placement_call, image_call]
    cases word : c.word? m with
    | none => simp [word]
    | some w =>
      obtain ⟨v, line⟩ := w
      rw [List.filterMap_cons_some word]
      obtain ⟨fault, refused, same, eq⟩ | ⟨a, room, here, eq⟩ :=
        (s.image m).placements_cons v line (rest.filterMap (Call.word? m))
      · simp [eq, refused, same, Except.toOption]
      · simp [eq, room, Except.toOption]

end Session
end TwoPass
