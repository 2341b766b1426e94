import Mathlib.Data.List.Basic
import TwoPass.Proofs.Reading.Numeral

/-! Reading a listing line by line: the lines of a text, the part of them between two
marks, and lines that give a bit string to a name. -/
namespace TwoPass.Reading

/-- The characters of a text, without decoding it. -/
theorem toList_spelled {s : String} {chars : List Char} (spelled : s = String.ofList chars) :
    s.toList = chars := by
  rw [spelled, String.toList_ofList]

theorem not_mem_spelled {c : Char} {s : String} {chars : List Char} (spelled : s = String.ofList chars)
    (absent : c ∉ chars) : c ∉ s.toList := by
  rw [toList_spelled spelled]
  exact absent

theorem not_mem_append_iff {c : Char} {first second : String} :
    c ∉ (first ++ second).toList ↔ c ∉ first.toList ∧ c ∉ second.toList := by
  rw [String.toList_append, List.mem_append, not_or]

theorem not_mem_append {c : Char} {first second : String} (left : c ∉ first.toList)
    (right : c ∉ second.toList) : c ∉ (first ++ second).toList :=
  not_mem_append_iff.mpr ⟨left, right⟩

def textLines (text : String) : List String :=
  (text.toList.splitOn '\n').map String.ofList

theorem textLines_intercalate {lines : List String} (nonempty : lines ≠ [])
    (whole : ∀ line ∈ lines, '\n' ∉ line.toList) : textLines ("\n".intercalate lines) = lines := by
  have split : (['\n'].intercalate (lines.map String.toList)).splitOn '\n' = lines.map String.toList := by
    apply List.splitOn_intercalate
    · intro chars member
      obtain ⟨line, listed, rfl⟩ := List.mem_map.mp member
      exact whole line listed
    · simpa using nonempty
  have single := toList_spelled (s := "\n") rfl
  rw [textLines, String.toList_intercalate, single, split, List.map_map]
  simp [Function.comp_def]

theorem ne_of_not_mem {α : Type} [DecidableEq α] {x : α} {xs : List α} (absent : x ∉ xs) :
    ∀ y ∈ xs, decide (y ≠ x) = true := by
  intro y member
  have different : y ≠ x := by
    rintro rfl
    exact absent member
  simpa using different

theorem takeWhile_mark {α : Type} [DecidableEq α] {x : α} {xs : List α} (absent : x ∉ xs) (rest : List α) :
    (xs ++ x :: rest).takeWhile (· ≠ x) = xs := by
  rw [List.takeWhile_append_of_pos (ne_of_not_mem absent)]
  simp

theorem dropWhile_mark {α : Type} [DecidableEq α] {x : α} {xs : List α} (absent : x ∉ xs) (rest : List α) :
    (xs ++ x :: rest).dropWhile (· ≠ x) = x :: rest := by
  rw [List.dropWhile_append_of_pos (ne_of_not_mem absent)]
  simp

/-- The lines after the first one that opens a part, up to the next closing line. -/
def between (opens : String → Bool) (closing : String) (lines : List String) : List String :=
  ((lines.dropWhile fun line => !opens line).drop 1).takeWhile (· ≠ closing)

theorem between_eq {opens : String → Bool} {closing opening : String} {before inner : List String}
    (unopened : ∀ line ∈ before, opens line = false) (opened : opens opening = true)
    (unclosed : closing ∉ inner) (rest : List String) :
    between opens closing (before ++ opening :: (inner ++ closing :: rest)) = inner := by
  have dropped : (before ++ opening :: (inner ++ closing :: rest)).dropWhile (fun line => !opens line) =
      opening :: (inner ++ closing :: rest) := by
    rw [List.dropWhile_append_of_pos (by simpa using unopened)]
    simp [opened]
  rw [between, dropped, List.drop_one, List.tail_cons, takeWhile_mark unclosed]

/-- The parts of a text that some line opens, each with all lines up to its closing one. -/
def sections {α : Type} (opens : String → Option α) (closing : String) :
    List String → List (α × List String)
  | [] => []
  | line :: rest =>
    ((opens line).map fun head => (head, rest.takeWhile (· ≠ closing))).toList ++
      sections opens closing rest

section
variable {α : Type} {opens : String → Option α} {closing : String}

theorem sections_append {before : List String} (unopened : ∀ line ∈ before, opens line = none)
    (rest : List String) : sections opens closing (before ++ rest) = sections opens closing rest := by
  induction before with
  | nil => rfl
  | cons line before ih =>
    rw [List.forall_mem_cons] at unopened
    rw [List.cons_append, sections, unopened.1, ih unopened.2]
    rfl

theorem sections_cons {opening : String} {head : α} {inner : List String} (opened : opens opening = some head)
    (unopened : ∀ line ∈ inner ++ [closing], opens line = none) (unclosed : closing ∉ inner)
    (rest : List String) :
    sections opens closing (opening :: (inner ++ closing :: rest)) =
      (head, inner) :: sections opens closing rest := by
  have later : sections opens closing (inner ++ closing :: rest) = sections opens closing rest := by
    rw [← sections_append unopened rest, List.append_assoc]
    rfl
  rw [sections, opened, takeWhile_mark unclosed, later]
  rfl

end

theorem isPrefixOf?_append (lead text : List Char) : lead.isPrefixOf? (lead ++ text) = some text :=
  List.isPrefixOf?_eq_some_iff_append_eq.mpr rfl

/-- A binary or hexadecimal bit string in quotes, with underscores between its digits. -/
def bitString? : List Char → Option Nat
  | 'B' :: '"' :: text => number? 2 ((text.takeWhile (· ≠ '"')).filter (· ≠ '_'))
  | 'X' :: '"' :: text => number? 16 ((text.takeWhile (· ≠ '"')).filter (· ≠ '_'))
  | _ => none

theorem bitString?_quoted {body : List Char} (unquoted : '"' ∉ body) (rest : List Char) :
    bitString? ('B' :: '"' :: (body ++ '"' :: rest)) = number? 2 (body.filter (· ≠ '_')) ∧
      bitString? ('X' :: '"' :: (body ++ '"' :: rest)) = number? 16 (body.filter (· ≠ '_')) := by
  simp only [bitString?, takeWhile_mark unquoted, and_self]

theorem filter_digits {digits : List Char} (only : '_' ∉ digits) : digits.filter (· ≠ '_') = digits :=
  List.filter_eq_self.mpr (ne_of_not_mem only)

/-- A name and the bit string given to it, on a line with a certain lead. -/
def association? (lead : String) (line : String) : Option (List Char × Nat) :=
  (lead.toList.isPrefixOf? line.toList).bind fun text =>
    (" => ".toList.isPrefixOf? (text.dropWhile (· ≠ ' '))).bind fun value =>
      (bitString? value).map fun n => (text.takeWhile (· ≠ ' '), n)

theorem association?_eq {lead name value : String} (solid : ' ' ∉ name.toList) {line : String}
    (eq : line = lead ++ name ++ " => " ++ value) :
    association? lead line = (bitString? value.toList).map fun n => (name.toList, n) := by
  have named := ne_of_not_mem solid
  have arrow := toList_spelled (s := " => ") rfl
  subst eq
  rw [association?, String.toList_append, String.toList_append, String.toList_append, List.append_assoc,
    List.append_assoc, isPrefixOf?_append, Option.bind_some, List.dropWhile_append_of_pos named,
    List.takeWhile_append_of_pos named]
  simp [arrow, List.isPrefixOf?]

theorem intercalate_cons_eq_flatMap {α : Type} (mark : α) (first : List α) (rest : List (List α)) :
    [mark].intercalate (first :: rest) = first ++ rest.flatMap (mark :: ·) := by
  induction rest generalizing first with
  | nil => simp
  | cons next rest ih => rw [List.intercalate_cons_cons, ih]; simp

/-- Chunks of equal length in a row are one range. -/
theorem flatMap_range' (count size : Nat) :
    ((List.range count).flatMap fun i => List.range' (i * size) size) = List.range (count * size) := by
  induction count with
  | zero => simp
  | succ count ih =>
    rw [List.range_succ, List.flatMap_append, ih, List.flatMap_singleton, Nat.succ_mul, List.range_add,
      List.range'_eq_map_range]

theorem lookup_map_eq_none {α κ β : Type} [DecidableEq κ] {key : α → κ} {k : κ} {xs : List α}
    (other : ∀ x ∈ xs, key x ≠ k) (value : α → β) :
    (xs.map fun x => (key x, value x)).lookup k = none := by
  rw [List.lookup_eq_none_iff, List.forall_mem_map]
  intro x listed
  simpa using (other x listed).symm

/-- A table with one row for every number has each number's own row. -/
theorem lookup_map_range {κ β : Type} [DecidableEq κ] {key : Nat → κ}
    (distinct : ∀ a b, key a = key b → a = b) (value : Nat → β) (count a : Nat) :
    ((List.range count).map fun b => (key b, value b)).lookup (key a) =
      if a < count then some (value a) else none := by
  induction count with
  | zero => simp
  | succ count ih =>
    have last : [(key count, value count)].lookup (key a) = if a = count then some (value a) else none := by
      by_cases same : a = count
      · simp [same]
      · have other : (key a == key count) = false := by simpa using fun eq => same (distinct a count eq)
        simp [List.lookup_cons, other, same]
    rw [List.range_succ, List.map_append, List.lookup_append, ih, List.map_singleton, last]
    by_cases below : a < count
    · rw [if_pos below, if_pos (Nat.lt_succ_of_lt below)]
      rfl
    · by_cases same : a = count
      · rw [if_neg below, if_pos same, if_pos (by omega)]
        rfl
      · rw [if_neg below, if_neg same, if_neg (by omega)]
        rfl

end TwoPass.Reading
