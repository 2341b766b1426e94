import Mathlib.Data.List.Nodup
import TwoPass.Proofs.Reading.BlockRamContents

/-! The instances of block RAM primitives in a description, each with its name and all of
its words. They are the blocks of both memories, and nothing else in the text is one. -/
namespace TwoPass.Reading.BlockRam

/-- The name of the instance that a line begins, and the number of bits in its words. -/
def instance? (line : String) : Option (String × Nat) :=
  ("   ".toList.isPrefixOf? line.toList).bind fun text =>
    ([Memory.program, .data].find? fun m => text.dropWhile (· ≠ ':') = (primitive m).toList).map fun m =>
      (String.ofList (text.takeWhile (· ≠ ':')), wordBits m)

/-- The words in 64 rows of 256 bits, where a row says what they are. -/
def contents (bits : Nat) (rows : List (Nat × Nat)) : List (Option Nat) :=
  (List.range 64).flatMap fun row => (List.range (256 / bits)).map fun i =>
    (rows.lookup row).map fun content => content / 2 ^ (bits * i) % 2 ^ bits

def instancesIn (lines : List String) : List (String × List (Option Nat)) :=
  (sections instance? "   );" lines).map fun found =>
    (found.1.1, contents found.1.2 (found.2.filterMap row?))

def instances (text : String) : List (String × List (Option Nat)) :=
  instancesIn (textLines text)

theorem toList_instanceLine (m : Memory) (number : Nat) :
    (instanceLine m number).toList =
      "   ".toList ++ ((instanceName m number).toList ++ (primitive m).toList) := by
  cases m with
  | program =>
    have lead : "   " ++ "MemoriaProg" = "   MemoriaProg" := rfl
    rw [instanceLine, label, ← lead]
    simp only [instanceName, String.toList_append, List.append_assoc]
  | data =>
    have lead : "   " ++ "MemoriaRam" = "   MemoriaRam" := rfl
    rw [instanceLine, label, ← lead]
    simp only [instanceName, String.toList_append, List.append_assoc]

theorem instance?_instanceLine (m : Memory) (number : Nat) :
    instance? (instanceLine m number) = some (instanceName m number, wordBits m) := by
  have plain : ':' ∉ (instanceName m number).toList := by
    cases m <;> exact not_mem_append (not_mem_spelled rfl (by decide)) (not_mem_decimal rfl number)
  have kind : ∃ rest, (primitive m).toList = ':' :: rest ∧
      [Memory.program, .data].find? (fun other => ':' :: rest = (primitive other).toList) = some m := by
    have program := toList_spelled (s := ": RAMB16_S36") rfl
    have data := toList_spelled (s := ": RAMB16_S18") rfl
    cases m with
    | program => exact ⟨_, program, by simp [primitive, program]⟩
    | data => exact ⟨_, data, by simp [primitive, program, data]⟩
  obtain ⟨rest, eq, found⟩ := kind
  rw [instance?, toList_instanceLine, isPrefixOf?_append, Option.bind_some, eq, dropWhile_mark plain,
    takeWhile_mark plain, found]
  simp

/-- A line that does not end in a digit. -/
def Unnumbered (line : String) : Prop :=
  line.toList.getLast?.all fun c => !c.isDigit

namespace Unnumbered

theorem of {line : String} {chars : List Char} (spelled : line = String.ofList chars)
    (other : chars.getLast?.all fun c => !c.isDigit) : Unnumbered line := by
  rw [Unnumbered, toList_spelled spelled]
  exact other

theorem append (first : String) {rest : String} {chars : List Char} {c : Char}
    (spelled : rest = String.ofList chars) (last : chars.getLast? = some c) (other : c.isDigit = false) :
    Unnumbered (first ++ rest) := by
  rw [Unnumbered, String.toList_append, toList_spelled spelled, List.getLast?_append, last]
  simp [other]

/-- The kind of primitive, at the end of the line, has a number. -/
theorem instance?_eq_none {line : String} (unnumbered : Unnumbered line) : instance? line = none := by
  rw [instance?, Option.bind_eq_none_iff]
  intro text begins
  rw [Option.map_eq_none_iff, List.find?_eq_none]
  intro m _ kind
  have last : ∃ c, (primitive m).toList.getLast? = some c ∧ c.isDigit = true := by
    cases m with
    | program => exact ⟨'6', by rw [primitive, toList_spelled rfl]; rfl, rfl⟩
    | data => exact ⟨'8', by rw [primitive, toList_spelled rfl]; rfl, rfl⟩
  obtain ⟨c, last, digit⟩ := last
  have ends : line.toList.getLast? = some c := by
    rw [← List.append_eq_of_isPrefixOf?_eq_some begins,
      ← List.takeWhile_append_dropWhile (p := (· ≠ ':')) (l := text), of_decide_eq_true kind,
      List.getLast?_append, List.getLast?_append, last]
    rfl
  rw [Unnumbered, ends] at unnumbered
  simp [digit] at unnumbered

end Unnumbered

theorem unnumbered_entities (sizes : Sizes) :
    ∀ line ∈ Listing.Entity.sizePackage sizes ++ Listing.Entity.program Listing.Entity.primitive ++
      Listing.Entity.data Listing.Entity.primitive, Unnumbered line := by
  have width : ∀ first, Unnumbered (first ++ ";") := fun first => .append first rfl rfl rfl
  have port : ∀ first, Unnumbered (first ++ ");") := fun first => .append first rfl rfl rfl
  simp only [Listing.Entity.sizePackage, Listing.Entity.program, Listing.Entity.data, Listing.Entity.primitive,
    Listing.Entity.standardLibraries, List.forall_mem_append, List.forall_mem_cons, List.not_mem_nil,
    false_implies, implies_true, width, port, true_and, and_true]
  and_intros <;> exact .of rfl rfl

theorem unnumbered_ports (m : Memory) (number : String) :
    ∀ line ∈ Listing.BlockRam.ports m number, Unnumbered line := by
  have enable : ∀ first, Unnumbered (first ++ "),                   --Enable (chip select) input") :=
    fun first => .append first rfl rfl rfl
  cases m with
  | program =>
    have output : ∀ first, Unnumbered (first ++ "),              --32-bit data output") :=
      fun first => .append first rfl rfl rfl
    simp only [Listing.BlockRam.ports, List.forall_mem_cons, List.not_mem_nil, false_implies, implies_true,
      enable, output, true_and, and_true]
    and_intros <;> exact .of rfl rfl
  | data =>
    have output : ∀ first, Unnumbered (first ++ "),               --16-bit data output") :=
      fun first => .append first rfl rfl rfl
    simp only [Listing.BlockRam.ports, List.forall_mem_cons, List.not_mem_nil, false_implies, implies_true,
      enable, output, true_and, and_true]
    and_intros <;> exact .of rfl rfl

theorem unnumbered_generics {m : Memory} (image : Image m) (start : Nat) :
    ∀ line ∈ Listing.BlockRam.registerValues m ++ Listing.BlockRam.rows image start ++
      Listing.BlockRam.parityRows, Unnumbered line := by
  simp only [List.forall_mem_append]
  refine ⟨⟨?_, ?_⟩, ?_⟩
  · cases m <;>
      simp only [Listing.BlockRam.registerValues, List.forall_mem_cons, List.not_mem_nil, false_implies,
        implies_true, and_true] <;>
      and_intros <;> exact .of rfl rfl
  · intro line member
    obtain ⟨row, -, rfl⟩ := List.mem_map.mp member
    exact .append _ rfl rfl rfl
  · intro line member
    obtain ⟨row, -, rfl⟩ := List.mem_map.mp member
    split
    · exact .append _ rfl rfl rfl
    · exact .append _ rfl rfl rfl

theorem unnumbered_block {m : Memory} (image : Image m) (number : Nat) :
    ∀ line ∈ Listing.BlockRam.block image number, line = instanceLine m number ∨ Unnumbered line := by
  have ports := unnumbered_ports m (Numeral.decimal number)
  have generics := unnumbered_generics image (number * m.blockWords)
  simp only [List.forall_mem_append] at generics
  obtain ⟨⟨registers, rows⟩, parity⟩ := generics
  simp only [Listing.BlockRam.block, Listing.BlockRam.primitiveInstance, instanceLine_eq,
    List.forall_mem_append, List.forall_mem_cons, List.not_mem_nil, false_implies, implies_true, and_true]
  refine ⟨⟨⟨⟨⟨⟨⟨⟨.inl trivial, .inr (.of rfl rfl)⟩, ?_⟩, .inr (.of rfl rfl)⟩, ?_⟩, ?_⟩, .inr (.of rfl rfl)⟩,
    ?_⟩, .inr (.of rfl rfl), .inr (.of rfl rfl)⟩
  · exact fun line member => .inr (registers line member)
  · exact fun line member => .inr (rows line member)
  · exact fun line member => .inr (parity line member)
  · exact fun line member => .inr (ports line member)

theorem unnumbered_architecture {m : Memory} (size : Size m) (image : Image m) :
    ∀ line ∈ Listing.BlockRam.architecture size image,
      line ∈ (List.range size.blocks).flatMap (Listing.BlockRam.block image) ∨ Unnumbered line := by
  have ended : ∀ first, Unnumbered (first ++ ";") ∧ Unnumbered (first ++ ");") ∧
      Unnumbered (first ++ " downto 0);") ∧ Unnumbered (first ++ " generate") ∧ Unnumbered (first ++ " and") ∧
      Unnumbered (first ++ " = i else '0';") ∧ Unnumbered (first ++ " else '0';") :=
    fun first => ⟨.append _ rfl rfl rfl, .append _ rfl rfl rfl, .append _ rfl rfl rfl, .append _ rfl rfl rfl,
      .append _ rfl rfl rfl, .append _ rfl rfl rfl, .append _ rfl rfl rfl⟩
  simp only [Listing.BlockRam.architecture, List.forall_mem_append]
  refine ⟨⟨⟨⟨?_, ?_⟩, fun line member => .inl member⟩, ?_⟩, ?_⟩
  · simp only [List.forall_mem_cons, List.not_mem_nil, false_implies, implies_true, ended, or_true, true_and,
      and_true]
    exact ⟨.inr (.of rfl rfl), .inr (.of rfl rfl)⟩
  · split
    · simp only [List.forall_mem_cons, List.not_mem_nil, false_implies, implies_true, ended, or_true, true_and,
        and_true]
      exact ⟨.inr (.of rfl rfl), .inr (.of rfl rfl)⟩
    · simp only [List.forall_mem_cons, List.not_mem_nil, false_implies, implies_true, ended, or_true, true_and,
        and_true]
      exact .inr (.of rfl rfl)
  · split
    · simp only [List.forall_mem_cons, List.not_mem_nil, false_implies, implies_true, ended, or_true, and_true]
    · simp only [List.forall_mem_cons, List.not_mem_nil, false_implies, implies_true, ended, or_true, and_true]
  · simp only [List.forall_mem_singleton]
    exact .inr (.of rfl rfl)

/-- Only the first line of an instance is read as one. -/
theorem instance?_of_plain {line : String} (plain : Plain names line)
    (kind : (∃ m number, line = instanceLine m number) ∨ Unnumbered line) : instance? line = none := by
  rcases kind with ⟨m, number, rfl⟩ | unnumbered
  · have unread := number?_of_plain plain m
    rw [number?_instanceLine] at unread
    contradiction
  · exact unnumbered.instance?_eq_none

/-- No line inside an instance is read as the first one of another. -/
theorem instance?_inner {m : Memory} (image : Image m) (number : Nat) :
    ∀ line ∈ inner image number, instance? line = none := by
  intro line member
  have listed : line ∈ Listing.BlockRam.block image number := by
    rw [block_eq]
    exact List.mem_cons_of_mem _ (List.mem_append_left _ member)
  exact instance?_of_plain
    ((plain_inner image number line member).mono fun lead among => List.mem_cons_of_mem _ among)
    ((unnumbered_block image number line listed).imp_left fun same => ⟨m, number, same⟩)

/-- Rows hold the words of their addresses, in order. -/
theorem contents_rows {m : Memory} {image : Image m} (formed : ∀ a, (image.cellAt a).Formed m) (start : Nat) :
    contents (wordBits m) ((List.range 64).map fun row =>
        (row, rowBits m (image.slice (start + row * wordsPerRow m) (wordsPerRow m)))) =
      (image.slice start m.blockWords).map fun c => some c.value := by
  have each : ∀ row ∈ List.range 64, ((List.range (wordsPerRow m)).map fun i =>
      (((List.range 64).map fun row => (row, rowBits m (image.slice (start + row * wordsPerRow m)
        (wordsPerRow m)))).lookup row).map fun content =>
          content / 2 ^ (wordBits m * i) % 2 ^ wordBits m) =
      (List.range' (row * wordsPerRow m) (wordsPerRow m)).map fun a =>
        some (image.cellAt (start + a)).value := by
    intro row below
    rw [lookup_map_range (fun _ _ same => same), if_pos (List.mem_range.mp below), List.range'_eq_map_range,
      List.map_map]
    apply List.map_congr_left
    intro i inside
    rw [Option.map_some, rowBits_word formed _ (List.mem_range.mp inside)]
    simp [Nat.add_assoc]
  rw [contents, ← wordsPerRow, List.flatMap_congr each, ← List.map_flatMap, flatMap_range', blockWords_eq,
    Image.slice, List.map_map]
  rfl

/-- The name and the words of a block. -/
def named {m : Memory} (image : Image m) (number : Nat) : String × List (Option Nat) :=
  (instanceName m number, (image.slice (number * m.blockWords) m.blockWords).map fun c => some c.value)

theorem instanceName_inj {m : Memory} {i j : Nat} (same : instanceName m i = instanceName m j) :
    i = j := by
  apply decimal_inj
  cases m <;> simpa [instanceName] using same

theorem instanceName_ne (i j : Nat) : instanceName .program i ≠ instanceName .data j := by
  intro same
  have letters := congrArg (fun name => name.toList[7]?) same
  simp only [instanceName, String.toList_append, toList_spelled (s := "MemoriaProg") rfl,
    toList_spelled (s := "MemoriaRam") rfl] at letters
  simp at letters

theorem nodup_names (images : Images) :
    (((List.range images.sizes.program.blocks).map (named images.program) ++
      (List.range images.sizes.data.blocks).map (named images.data)).map Prod.fst).Nodup := by
  have memory : ∀ {m : Memory} (image : Image m) (count : Nat),
      ((List.range count).map (Prod.fst ∘ named image)).Nodup :=
    fun image count => List.nodup_range.map fun i j same => instanceName_inj same
  rw [List.map_append, List.map_map, List.map_map, List.nodup_append]
  refine ⟨memory _ _, memory _ _, ?_⟩
  simp only [List.forall_mem_map]
  exact fun i _ j _ => instanceName_ne i j

/-- Every line of a description begins an instance or does not end in a digit. -/
theorem mem_lines {images : Images} {line : String} (member : line ∈ Listing.BlockRam.lines images) :
    (∃ m number, line = instanceLine m number) ∨ Unnumbered line := by
  have entities := unnumbered_entities images.sizes
  have memory : ∀ {m : Memory} (size : Size m) (image : Image m),
      line ∈ Listing.BlockRam.architecture size image →
        (∃ m number, line = instanceLine m number) ∨ Unnumbered line := by
    intro m size image member
    rcases unnumbered_architecture size image line member with inside | outside
    · obtain ⟨number, -, inside⟩ := List.mem_flatMap.mp inside
      exact (unnumbered_block image number line inside).imp_left fun same => ⟨m, number, same⟩
    · exact .inr outside
  simp only [List.forall_mem_append] at entities
  obtain ⟨⟨package, program⟩, data⟩ := entities
  simp only [Listing.BlockRam.lines, List.mem_append] at member
  rcases member with (((inPackage | inProgram) | inside) | inData) | inside
  · exact .inr (package line inPackage)
  · exact .inr (program line inProgram)
  · exact memory _ _ inside
  · exact .inr (data line inData)
  · exact memory _ _ inside

section
variable {α : Type} {opens : String → Option α} {head : Memory → Nat → α}
variable (opened : ∀ m number, opens (instanceLine m number) = some (head m number))
variable (unopened : ∀ line, instance? line = none → opens line = none)
include opened unopened

/-- The instances of a memory are its blocks in order. -/
theorem sections_blocks {m : Memory} (image : Image m) (numbers : List Nat) (rest : List String) :
    sections opens "   );" (numbers.flatMap (Listing.BlockRam.block image) ++ rest) =
      numbers.map (fun number => (head m number, inner image number)) ++ sections opens "   );" rest := by
  have closing : Unnumbered "   );" := .of rfl rfl
  have blank : Unnumbered "" := .of rfl rfl
  have ended : ∀ line ∈ [""], opens line = none := by
    simpa using unopened "" blank.instance?_eq_none
  induction numbers with
  | nil => rfl
  | cons number numbers ih =>
    have inside : ∀ line ∈ inner image number ++ ["   );"], opens line = none := by
      simp only [List.forall_mem_append, List.forall_mem_singleton]
      exact ⟨fun line member => unopened line (instance?_inner image number line member),
        unopened _ closing.instance?_eq_none⟩
    have lines : (number :: numbers).flatMap (Listing.BlockRam.block image) ++ rest =
        instanceLine m number :: (inner image number ++ "   );" ::
          ([""] ++ (numbers.flatMap (Listing.BlockRam.block image) ++ rest))) := by
      rw [List.flatMap_cons, block_eq]
      simp only [List.append_assoc, List.cons_append, List.nil_append]
    rw [lines, sections_cons (opened m number) inside (closing_not_mem (plain_inner image number)),
      sections_append ended, ih, List.map_cons, List.cons_append]

/-- The parts of a description that begin an instance are the blocks of both memories. -/
theorem sections_render (images : Images) :
    sections opens "   );" (textLines (Listing.Format.blockRam.render images)) =
      (List.range images.sizes.program.blocks).map (fun number =>
        (head .program number, inner images.program number)) ++
      (List.range images.sizes.data.blocks).map fun number =>
        (head .data number, inner images.data number) := by
  obtain ⟨first, second, third, plain, eq⟩ := lines_eq images
  have outside : ∀ line ∈ first ++ second ++ third, opens line = none := by
    intro line member
    have listed : line ∈ Listing.BlockRam.lines images := by
      rw [eq]
      simp only [List.mem_append] at member ⊢
      tauto
    exact unopened line (instance?_of_plain (plain line member) (mem_lines listed))
  simp only [List.forall_mem_append] at outside
  obtain ⟨⟨before, middle⟩, after⟩ := outside
  have last : sections opens "   );" third = [] := by
    rw [← List.append_nil third, sections_append after]
    rfl
  rw [textLines_render, eq, List.append_assoc, sections_append before, sections_blocks opened unopened,
    List.append_assoc, sections_append middle, sections_blocks opened unopened, last, List.append_nil]

end

/-- A description instantiates the blocks of both memories, with the words in them. -/
theorem instances_render {images : Images} (sound : images.Sound) :
    instances (Listing.Format.blockRam.render images) =
      (List.range images.sizes.program.blocks).map (named images.program) ++
        (List.range images.sizes.data.blocks).map (named images.data) := by
  have words := fun m number =>
    contents_rows (sound.formed_cellAt m) (number * m.blockWords)
  have program : ∀ number, contents (wordBits .program) ((inner images.program number).filterMap row?) = _ :=
    fun number => (congrArg _ (filterMap_inner images.program number)).trans (words .program number)
  have data : ∀ number, contents (wordBits .data) ((inner images.data number).filterMap row?) = _ :=
    fun number => (congrArg _ (filterMap_inner images.data number)).trans (words .data number)
  rw [instances, instancesIn, sections_render instance?_instanceLine (fun _ unread => unread), List.map_append,
    List.map_map, List.map_map]
  simp only [Function.comp_def, program, data]
  rfl

end TwoPass.Reading.BlockRam
