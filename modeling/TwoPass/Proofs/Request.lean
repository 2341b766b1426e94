import TwoPass.Proofs.CommandLine
import TwoPass.Proofs.Reader

/-! Requests and all command lines that express them. A request can be worded in many ways,
and its items can stand in any order; whatever library follows the rules of command lines
reads all of them alike. -/
namespace TwoPass.Invocation

/-- Everything that a command line can ask for. -/
structure Request where
  input : String
  output : Listing.Format → Option String
  size : (m : Memory) → Option (Size m)
  /-- How often more detail is asked for. -/
  verbose : Nat
  input_ne : input ≠ ""
  output_ne : ∀ f, output f ≠ some ""

namespace Request

theorem smallest_program : 512 ∈ Memory.program.sizes := List.mem_cons_self

theorem smallest_data : 1024 ∈ Memory.data.sizes := List.mem_cons_self

def configuration (r : Request) : Configuration where
  input := r.input
  output := r.output
  sizes := {
    program := (r.size .program).getD ⟨512, smallest_program⟩
    data := (r.size .data).getD ⟨1024, smallest_data⟩ }
  verbosity := min r.verbose 255

/-- The value of an option, given the numerals for the sizes. -/
def value? (r : Request) (numeral : Memory → String) : ValueOption → Option String
  | .output f => r.output f
  | .size m => (r.size m).map fun _ => numeral m

/-- The free choices in putting a request into words: how each option is spelled, and with
which numeral each size is given. -/
structure Wording (r : Request) where
  numeral : Memory → String
  spelling : ValueOption → Spelling
  denotes : ∀ m size, r.size m = some size → Denotes (numeral m).toList size.count
  allowed : ∀ o value, r.value? numeral o = some value → (spelling o).Allows value

/-- All items of a request but the input. -/
def items (r : Request) (w : r.Wording) : List Item :=
  (ValueOption.all.filterMap fun o => (r.value? w.numeral o).map (.option o (w.spelling o))) ++
    List.replicate r.verbose .verbose

/-- The command lines that express a request, in any wording and any order. An input that
looks like an option comes last, behind a separator. -/
inductive Written (r : Request) : List String → Prop
  | inPlace (w : r.Wording) {items : List Item} (order : items.Perm (.input r.input :: r.items w))
      (isPlain : IsPlain r.input) : Written r (items.flatMap Item.arguments)
  | last (w : r.Wording) {items : List Item} (order : items.Perm (r.items w)) :
      Written r (items.flatMap Item.arguments ++ ["--", r.input])

variable {r : Request} {w : r.Wording} {item : Item}

theorem mem_items_iff :
    item ∈ r.items w ↔
      (∃ o value, r.value? w.numeral o = some value ∧ item = .option o (w.spelling o) value) ∨
        r.verbose ≠ 0 ∧ item = .verbose := by
  have every : ∀ o, o ∈ ValueOption.all := by
    rintro ((_ | _ | _ | _) | (_ | _)) <;> simp [ValueOption.all]
  simp only [items, List.mem_append, List.mem_filterMap, every, true_and, Option.map_eq_some_iff,
    List.mem_replicate, eq_comm (b := item)]

theorem gives_items_iff {o : ValueOption} {value : String} :
    (∃ item ∈ r.items w, item.Gives o value) ↔ r.value? w.numeral o = some value := by
  constructor
  · rintro ⟨item, listed, gives⟩
    obtain ⟨p, text, given, rfl⟩ | ⟨-, rfl⟩ := mem_items_iff.mp listed
    · obtain ⟨rfl, rfl⟩ := gives
      exact given
    · exact gives.elim
  · intro given
    exact ⟨_, mem_items_iff.mpr (.inl ⟨o, value, given, rfl⟩), rfl, rfl⟩

theorem not_mem_items (path : String) : .input path ∉ r.items w := by
  intro listed
  obtain ⟨o, value, -, eq⟩ | ⟨-, eq⟩ := mem_items_iff.mp listed <;> contradiction

theorem count_items : (r.items w).count .verbose = r.verbose := by
  have none : Item.verbose ∉ ValueOption.all.filterMap fun o =>
      (r.value? w.numeral o).map (.option o (w.spelling o)) := by
    simp
  rw [items, List.count_append, List.count_eq_zero_of_not_mem none, List.count_replicate_self,
    Nat.zero_add]

theorem writable_items (listed : item ∈ r.items w) : item.Writable := by
  obtain ⟨o, value, given, rfl⟩ | ⟨-, rfl⟩ := mem_items_iff.mp listed
  · exact w.allowed o value given
  · trivial

theorem valid_items (listed : item ∈ r.items w) : item.Valid := by
  obtain ⟨o, value, given, rfl⟩ | ⟨-, rfl⟩ := mem_items_iff.mp listed
  · cases o with
    | output f =>
      rintro rfl
      exact r.output_ne f given
    | size m =>
      obtain ⟨size, chosen, rfl⟩ := Option.map_eq_some_iff.mp given
      exact ⟨size, w.denotes m size chosen⟩
  · trivial

theorem apart_items (r : Request) (w : r.Wording) : (r.items w).Pairwise Item.Apart := by
  rw [items, List.pairwise_append]
  refine ⟨?_, ?_, ?_⟩
  · have distinct : ValueOption.all.Pairwise (· ≠ ·) := by decide
    refine List.Pairwise.filterMap _ ?_ distinct
    intro o p different a first b second
    obtain ⟨value, -, rfl⟩ := Option.map_eq_some_iff.mp first
    obtain ⟨other, -, rfl⟩ := Option.map_eq_some_iff.mp second
    exact different
  · exact List.pairwise_replicate.mpr (.inr trivial)
  · intro a _ b second
    rw [List.eq_of_mem_replicate second]
    cases a <;> trivial

/-- The one size that the numeral for a memory denotes is the one asked for. -/
theorem denotes_value_iff {m : Memory} {size : Size m} :
    (∃ text, r.value? w.numeral (.size m) = some text ∧ Denotes text.toList size.count) ↔
      r.size m = some size := by
  constructor
  · rintro ⟨text, given, denotes⟩
    obtain ⟨own, chosen, rfl⟩ := Option.map_eq_some_iff.mp given
    rw [chosen, (w.denotes m own chosen).size_eq denotes]
  · intro chosen
    refine ⟨w.numeral m, ?_, w.denotes m size chosen⟩
    simp [value?, chosen]

theorem default_program : readSize .program (ValueOption.defaultSize .program) = .ok ⟨512, smallest_program⟩ :=
  rfl

theorem default_data : readSize .data (ValueOption.defaultSize .data) = .ok ⟨1024, smallest_data⟩ :=
  rfl

section
variable {items : List Item} (order : items.Perm (.input r.input :: r.items w))
include order

/-- The items are taken in any order. -/
theorem exists_takesAll_perm : ∃ last, Draft.TakesAll {} items last := by
  apply Draft.exists_takesAll
  · rw [order.pairwise_iff Item.Apart.symm, List.pairwise_cons]
    constructor
    · rintro (_ | _ | path) listed
      · trivial
      · trivial
      · exact not_mem_items path listed
    · exact r.apart_items w
  · intro item listed
    rcases List.mem_cons.mp (order.mem_iff.mp listed) with rfl | among
    · exact r.input_ne
    · exact valid_items among
  · rintro (⟨_ | _, _, _⟩ | _ | _) - <;> trivial

theorem gives_perm_iff {o : ValueOption} {value : String} :
    (∃ item ∈ items, item.Gives o value) ↔ r.value? w.numeral o = some value := by
  rw [← gives_items_iff]
  simp [order.mem_iff, Item.Gives]

/-- Together the items fill in what is asked for. -/
theorem parse_takesAll {ε : Type} {parser : ArgumentParser ε} (rules : parser.LeftToRight)
    {arguments : List String} {last : Draft} (all : Draft.TakesAll {} items last)
    (whole : parser.Matches arguments last) : parser.parse arguments = .ok r.configuration := by
  have input : last.input = some r.input := by
    rw [all.iff_exists fun takes => takes.input_iff r.input]
    exact .inr ⟨_, order.mem_iff.mpr List.mem_cons_self, rfl⟩
  have output : last.output = r.output := by
    funext f
    ext path
    rw [all.iff_exists fun takes => takes.output_iff f path, gives_perm_iff order]
    simp [value?]
  have size : ∀ m, last.size m = r.size m := by
    intro m
    ext size
    rw [all.iff_exists fun takes => takes.size_iff m size, ← denotes_value_iff (w := w)]
    constructor
    · rintro (unset | ⟨item, listed, text, gives, denotes⟩)
      · contradiction
      · exact ⟨text, (gives_perm_iff order).mp ⟨item, listed, gives⟩, denotes⟩
    · rintro ⟨text, given, denotes⟩
      obtain ⟨item, listed, gives⟩ := (gives_perm_iff order).mpr given
      exact .inr ⟨item, listed, text, gives, denotes⟩
  have verbosity : last.verbosity = min r.verbose 255 := by
    rw [all.verbosity_eq (Nat.zero_le 255), order.count_eq]
    simp [count_items]
  have program : last.sizeOf .program = .ok r.configuration.sizes.program := by
    rw [Draft.sizeOf_eq (size .program) default_program]
    rfl
  have data : last.sizeOf .data = .ok r.configuration.sizes.data := by
    rw [Draft.sizeOf_eq (size .data) default_data]
    rfl
  rw [rules.result whole input program data, output, verbosity]
  rfl

end

theorem parse_written {ε : Type} {parser : ArgumentParser ε} (rules : parser.LeftToRight)
    {arguments : List String} (written : r.Written arguments) :
    parser.parse arguments = .ok r.configuration := by
  cases written with
  | inPlace w order isPlain =>
    obtain ⟨last, all⟩ := exists_takesAll_perm order
    refine parse_takesAll order rules all (rules.matches_items ?_ all)
    intro item listed
    rcases List.mem_cons.mp (order.mem_iff.mp listed) with rfl | among
    · exact isPlain
    · exact writable_items among
  | last w order =>
    have moved := (List.perm_append_singleton (.input r.input) _).trans (order.cons _)
    obtain ⟨last, all⟩ := exists_takesAll_perm moved
    refine parse_takesAll moved rules all (rules.matches_separated ?_ all)
    exact fun item listed => writable_items (order.mem_iff.mp listed)

/-- Every command line that expresses a request is read as exactly that request, so the files
to write and the sizes are the same in all of them. -/
theorem arguments_denote_request {ε : Type} (parser : ArgumentParser ε) (rules : parser.LeftToRight)
    (r : Request) {arguments : List String} (written : r.Written arguments) :
    parser.parse arguments = .ok r.configuration ∧
      ∀ (q : Request) (others : List String), q.Written others → q.output = r.output → q.size = r.size →
        (parser.parse others).map (fun c => (c.outputs, c.sizes)) =
          (parser.parse arguments).map fun c => (c.outputs, c.sizes) := by
  constructor
  · exact parse_written rules written
  · intro q others expressed outputs sizes
    rw [parse_written rules written, parse_written rules expressed]
    simp only [Except.map, configuration, Configuration.outputs, outputs, sizes]

/-- Values that start with a dash or an equals sign, and an input that looks like an option. -/
def dashed : Request where
  input := "-in.asm"
  output
    | .vhdl => "=a"
    | .blockRam => "-b"
    | .hexDump => "c"
    | .memoryMap => "-"
  size
    | .program => Size.ofCount? .program 512
    | .data => Size.ofCount? .data 32768
  verbose := 2
  input_ne := by decide
  output_ne := by rintro (_ | _ | _ | _) <;> decide

def dashedWording : dashed.Wording where
  numeral
    | .program => "+0512"
    | .data => "32768"
  spelling
    | .output .vhdl => .longEquals
    | .output .blockRam => .shortEquals
    | .output .hexDump => .shortJoined
    | .output .memoryMap => .shortApart
    | .size .program => .longApart
    | .size .data => .longEquals
  denotes := by
    rintro (_ | _) _ ⟨⟩
    · exact readSize_eq_ok_iff.mp (by decide)
    · exact readSize_eq_ok_iff.mp (by decide)
  allowed := by
    rintro ((_ | _ | _ | _) | (_ | _)) _ ⟨⟩
    · trivial
    · trivial
    · constructor <;> decide
    · exact .inr rfl
    · exact .inl (by decide)
    · trivial

theorem arguments_denote_request_dashed :
    ∃ c, Configuration.ofArguments ["--vhdl==a", "-R=-b", "-mc", "--verbose", "--program-size", "+0512",
        "--ram-size=32768", "--verbose", "-b", "-", "--", "-in.asm"] = .ok c ∧
      c.input = "-in.asm" ∧ c.sizes.program.count = 512 ∧ c.sizes.data.count = 32768 ∧
      c.outputs = [(.vhdl, "=a"), (.blockRam, "-b"), (.hexDump, "c"), (.memoryMap, "-")] ∧
      c.verbosity = 2 := by
  have order : [.option (.output .vhdl) .longEquals "=a", .option (.output .blockRam) .shortEquals "-b",
      .option (.output .hexDump) .shortJoined "c", .verbose, .option (.size .program) .longApart "+0512",
      .option (.size .data) .longEquals "32768", .verbose,
      .option (.output .memoryMap) .shortApart "-"].Perm (dashed.items dashedWording) := by decide
  have denoted := arguments_denote_request Reader.parser Reader.leftToRight dashed (.last dashedWording order)
  exact ⟨dashed.configuration, denoted.1, rfl, rfl, rfl, rfl, rfl⟩

end Request

end TwoPass.Invocation
