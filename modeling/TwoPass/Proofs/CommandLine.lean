import TwoPass.Proofs.SizeGrammar
import TwoPass.Proofs.Spelling

/-! Command lines as a denotation of what is asked for. The items of a command line can come
in any order and in any spelling, and a library that follows the rules of command lines
takes them in one by one. -/
namespace TwoPass.Invocation

/-- A part of a command line that means something by itself. -/
inductive Item where
  | option (o : ValueOption) (spelling : Spelling) (value : String)
  | verbose
  | input (path : String)
deriving DecidableEq

namespace Item

def arguments : Item → List String
  | .option o spelling value => spelling.arguments o value
  | .verbose => ["--verbose"]
  | .input path => [path]

/-- Whether an item is recognised the way it is written. -/
def Writable : Item → Prop
  | .option _ spelling value => spelling.Allows value
  | .verbose => True
  | .input path => IsPlain path

/-- Whether an item has a meaning in some place. -/
def Valid : Item → Prop
  | .option (.output _) _ path => path ≠ ""
  | .option (.size m) _ text => ∃ size : Size m, Denotes text.toList size.count
  | .verbose => True
  | .input path => path ≠ ""

/-- Only one input and one value for each option can be given. -/
def Apart : Item → Item → Prop
  | .option o _ _, .option p _ _ => o ≠ p
  | .input _, .input _ => False
  | _, _ => True

def Gives (o : ValueOption) (value : String) : Item → Prop
  | .option p _ text => p = o ∧ text = value
  | _ => False

theorem Apart.symm {a b : Item} (apart : a.Apart b) : b.Apart a := by
  cases a with
  | option o spelling value =>
    cases b with
    | option p spelling value => exact Ne.symm apart
    | verbose | input => trivial
  | verbose => cases b <;> trivial
  | input path =>
    cases b with
    | option | verbose => trivial
    | input other => exact apart

end Item

namespace Draft

/-- What an item makes of a draft in which its own field is still empty. -/
inductive Takes (d : Draft) : Item → Draft → Prop
  | option {o : ValueOption} {spelling : Spelling} {value : String} {next : Draft}
      (sets : d.Sets o value next) : Takes d (.option o spelling value) next
  | verbose : Takes d .verbose { d with verbosity := min (d.verbosity + 1) 255 }
  | input {path : String} (fresh : d.input = none) (filled : path ≠ "") :
      Takes d (.input path) { d with input := some path }

inductive TakesAll : Draft → List Item → Draft → Prop
  | nil {d : Draft} : TakesAll d [] d
  | cons {d next last : Draft} {item : Item} {items : List Item} (first : d.Takes item next)
      (rest : TakesAll next items last) : TakesAll d (item :: items) last

/-- Whether the field of an item is empty. -/
def Lacks (d : Draft) : Item → Prop
  | .option (.output f) _ _ => d.output f = none
  | .option (.size m) _ _ => d.size m = none
  | .verbose => True
  | .input _ => d.input = none

variable {d next last : Draft} {item : Item} {items : List Item}

theorem Lacks.takes (lacks : d.Lacks item) (valid : item.Valid) : ∃ next, d.Takes item next := by
  cases item with
  | option o spelling value =>
    cases o with
    | output f => exact ⟨_, .option (.output lacks valid)⟩
    | size m =>
      obtain ⟨size, denotes⟩ := valid
      exact ⟨_, .option (.size lacks (readSize_eq_ok_iff.mpr denotes))⟩
  | verbose => exact ⟨_, .verbose⟩
  | input path => exact ⟨_, .input lacks valid⟩

theorem Takes.lacks (takes : d.Takes item next) {other : Item} (apart : item.Apart other)
    (lacks : d.Lacks other) : next.Lacks other := by
  cases other with
  | option o spelling value =>
    cases o with
    | output g =>
      cases takes with
      | option sets =>
        cases sets with
        | output fresh filled =>
          have different : g ≠ _ := fun same => apart (congrArg ValueOption.output same.symm)
          exact (if_neg different).trans lacks
        | size => exact lacks
      | verbose | input => exact lacks
    | size k =>
      cases takes with
      | option sets =>
        cases sets with
        | size fresh accepted =>
          have different : _ ≠ k := fun same => apart (congrArg ValueOption.size same)
          exact (dif_neg different).trans lacks
        | output => exact lacks
      | verbose | input => exact lacks
  | verbose => trivial
  | input path =>
    cases takes with
    | input fresh filled => exact apart.elim
    | option sets => cases sets <;> exact lacks
    | verbose => exact lacks

/-- Items that do not compete for a field are all taken. -/
theorem exists_takesAll (apart : items.Pairwise Item.Apart) (valid : ∀ item ∈ items, item.Valid)
    (lacks : ∀ item ∈ items, d.Lacks item) : ∃ last, d.TakesAll items last := by
  induction items generalizing d with
  | nil => exact ⟨d, .nil⟩
  | cons item items ih =>
    rw [List.pairwise_cons] at apart
    rw [List.forall_mem_cons] at valid lacks
    obtain ⟨next, first⟩ := lacks.1.takes valid.1
    have still : ∀ other ∈ items, next.Lacks other := fun other listed =>
      first.lacks (apart.1 other listed) (lacks.2 other listed)
    obtain ⟨last, rest⟩ := ih apart.2 valid.2 still
    exact ⟨last, .cons first rest⟩

theorem TakesAll.split {later : List Item} (all : d.TakesAll (items ++ later) last) :
    ∃ between, d.TakesAll items between ∧ between.TakesAll later last := by
  induction items generalizing d with
  | nil => exact ⟨d, .nil, all⟩
  | cons item items ih =>
    cases all with
    | cons first rest =>
      obtain ⟨between, early, late⟩ := ih rest
      exact ⟨between, .cons first early, late⟩

theorem Takes.output_iff (takes : d.Takes item next) (f : Listing.Format) (path : String) :
    next.output f = some path ↔ d.output f = some path ∨ item.Gives (.output f) path := by
  cases takes with
  | option sets =>
    cases sets with
    | @output g value fresh filled =>
      by_cases same : f = g
      · subst same
        simp [Item.Gives, fresh]
      · simp [Item.Gives, same, Ne.symm same]
    | size => simp [Item.Gives]
  | verbose | input => simp [Item.Gives]

theorem Takes.size_iff (takes : d.Takes item next) (m : Memory) (size : Size m) :
    next.size m = some size ↔
      d.size m = some size ∨ ∃ text, item.Gives (.size m) text ∧ Denotes text.toList size.count := by
  cases takes with
  | @option o spelling text next sets =>
    cases sets with
    | @size k _ own fresh accepted =>
      by_cases same : k = m
      · subst same
        have unique : own = size ↔ Denotes text.toList size.count := by
          rw [← readSize_eq_ok_iff, accepted, Except.ok.injEq]
        simp [Item.Gives, fresh, unique]
      · simp [Item.Gives, same]
    | output => simp [Item.Gives]
  | verbose | input => simp [Item.Gives]

theorem Takes.input_iff (takes : d.Takes item next) (path : String) :
    next.input = some path ↔ d.input = some path ∨ item = .input path := by
  cases takes with
  | input fresh filled => simp [fresh]
  | option sets => cases sets <;> simp
  | verbose => simp

theorem Takes.verbosity_eq (takes : d.Takes item next) (small : d.verbosity ≤ 255) :
    next.verbosity = min (d.verbosity + [item].count .verbose) 255 := by
  cases takes with
  | verbose => simp
  | option sets => cases sets <;> simpa using (Nat.min_eq_left small).symm
  | input => simpa using (Nat.min_eq_left small).symm

/-- What holds of a draft exactly if one item made it hold is a matter of which items there
are, not of their order. -/
theorem TakesAll.iff_exists {P : Draft → Prop} {Q : Item → Prop}
    (step : ∀ {d next : Draft} {item : Item}, d.Takes item next → (P next ↔ P d ∨ Q item))
    (all : d.TakesAll items last) : P last ↔ P d ∨ ∃ item ∈ items, Q item := by
  induction all with
  | nil => simp
  | cons first rest ih =>
    rw [ih, step first, or_assoc]
    simp

theorem TakesAll.verbosity_eq (all : d.TakesAll items last) (small : d.verbosity ≤ 255) :
    last.verbosity = min (d.verbosity + items.count .verbose) 255 := by
  induction all with
  | nil => simpa using (Nat.min_eq_left small).symm
  | @cons d next last item items first rest ih =>
    have one := first.verbosity_eq small
    have counted : (item :: items).count .verbose = [item].count .verbose + items.count .verbose := by
      rw [← List.count_append]
      rfl
    rw [ih (by omega), one, counted]
    omega

theorem sizeOf_eq {m : Memory} {given : Option (Size m)} {default : Size m}
    (size : d.size m = given) (standard : readSize m (ValueOption.defaultSize m) = .ok default) :
    d.sizeOf m = .ok (given.getD default) := by
  rw [Draft.sizeOf, size]
  cases given with
  | none => exact standard
  | some size => rfl

end Draft

theorem Item.not_mem_arguments {item : Item} (writable : item.Writable) : "--" ∉ item.arguments := by
  cases item with
  | option o spelling value => exact Spelling.not_mem_arguments writable
  | verbose => decide
  | input path =>
    rw [arguments, List.mem_singleton]
    exact (IsPlain.ne_separator writable).symm

namespace ArgumentParser
variable {ε : Type} {parser : ArgumentParser ε} {d next last : Draft}

theorem Continues.trans {first second : List String} (early : parser.Continues d first next)
    (options : "--" ∉ first) (late : parser.Continues next second last) :
    parser.Continues d (first ++ second) last := by
  intro arguments before unseparated
  rw [← List.append_assoc]
  apply late
  · exact early arguments before unseparated
  · exact List.not_mem_append unseparated options

namespace LeftToRight
variable (rules : parser.LeftToRight)
include rules

theorem item {item : Item} (writable : item.Writable) (takes : d.Takes item next) :
    parser.Continues d item.arguments next := by
  cases takes with
  | option sets => exact rules.spelled writable sets
  | verbose => exact rules.counted d
  | input fresh filled => exact rules.positional writable fresh filled

theorem items {items : List Item} (writable : ∀ item ∈ items, item.Writable)
    (all : d.TakesAll items last) : parser.Continues d (items.flatMap Item.arguments) last := by
  induction all with
  | nil =>
    intro arguments before _
    rwa [List.flatMap_nil, List.append_nil]
  | cons first rest ih =>
    rw [List.forall_mem_cons] at writable
    rw [List.flatMap_cons]
    exact (rules.item writable.1 first).trans (Item.not_mem_arguments writable.1) (ih writable.2)

/-- All items of a command line are matched. -/
theorem matches_items {items : List Item} (writable : ∀ item ∈ items, item.Writable)
    (all : Draft.TakesAll {} items last) : parser.Matches (items.flatMap Item.arguments) last :=
  rules.items writable all [] rules.start List.not_mem_nil

/-- Behind a separator the input can have any form. -/
theorem matches_separated {items : List Item} (writable : ∀ item ∈ items, item.Writable) {path : String}
    (all : Draft.TakesAll {} (items ++ [.input path]) last) :
    parser.Matches (items.flatMap Item.arguments ++ ["--", path]) last := by
  obtain ⟨between, early, late⟩ := all.split
  cases late with
  | cons takes rest =>
    cases rest
    cases takes with
    | input fresh filled =>
      have options : "--" ∉ items.flatMap Item.arguments := by
        rw [List.mem_flatMap]
        rintro ⟨item, listed, among⟩
        exact Item.not_mem_arguments (writable item listed) among
      have separated := rules.separator between _ (rules.matches_items writable early) options
      have behind := rules.separated separated (by simp) fresh filled
      rwa [List.append_assoc] at behind

end LeftToRight
end ArgumentParser

end TwoPass.Invocation
