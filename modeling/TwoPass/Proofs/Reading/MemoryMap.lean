import TwoPass.Proofs.Reading.BlockRam
import TwoPass.Proofs.Reading.HexDump

/-! What a map says of the block RAMs. Each of its address spaces is a range of bytes, and
the bus blocks of a space name the instances that hold it with the bits they serve. -/
namespace TwoPass.Reading.MemoryMap

/-- An instance on a bus, with the highest and the lowest bit that it serves. -/
structure Lane where
  name : String
  high : Nat
  low : Nat
deriving DecidableEq

/-- The first and the last byte of an address space, and the lanes of its bus blocks. -/
structure Space where
  first : Nat
  last : Nat
  blocks : List (List Lane)
deriving DecidableEq

/-- The parts of a line between its blanks. -/
def tokens (line : String) : List (List Char) :=
  (line.toList.splitOn ' ').filter (· ≠ [])

/-- Two numbers in brackets, with a colon between them. -/
def bounds? (number : List Char → Option Nat) : List Char → Option (Nat × Nat)
  | '[' :: text =>
    (number (text.takeWhile (· ≠ ':'))).bind fun first =>
      (number (((text.dropWhile (· ≠ ':')).drop 1).takeWhile (· ≠ ']'))).map fun second =>
        (first, second)
  | _ => none

def hexadecimal? : List Char → Option Nat
  | '0' :: 'x' :: digits => number? 16 digits
  | _ => none

/-- A lane is a path, the last part of which names the instance, and bits of the bus. -/
def lane? (line : String) : Option Lane :=
  match tokens line with
  | [path, bits] => (bounds? (number? 10) bits).map fun (high, low) =>
      ⟨String.ofList ((path.splitOn '/').getLastD []), high, low⟩
  | _ => none

def busBlock? (line : String) : Option Unit :=
  if tokens line = ["BUS_BLOCK".toList] then some () else none

def addressSpace? (line : String) : Option (Nat × Nat) :=
  match tokens line with
  | [keyword, _, _, range] =>
    if keyword = "ADDRESS_SPACE".toList then bounds? hexadecimal? range else none
  | _ => none

def busBlocks (lines : List String) : List (List Lane) :=
  (sections busBlock? "      END_BUS_BLOCK;" lines).map fun block => block.2.filterMap lane?

def spaces (text : String) : List Space :=
  (sections addressSpace? "   END_ADDRESS_SPACE;" (textLines text)).map fun space =>
    ⟨space.1.1, space.1.2, busBlocks space.2⟩

theorem tokens_append (first rest : String) : tokens (first ++ " " ++ rest) = tokens first ++ tokens rest := by
  have blank := toList_spelled (s := " ") rfl
  rw [tokens, String.toList_append, String.toList_append, blank, List.append_assoc, List.singleton_append,
    List.splitOn_append_cons_self, List.filter_append]
  rfl

theorem tokens_word {word : String} (nonempty : word.toList ≠ []) (solid : ' ' ∉ word.toList) :
    tokens word = [word.toList] := by
  rw [tokens, List.splitOn_eq_singleton solid]
  simp [nonempty]

theorem bounds?_eq (number : List Char → Option Nat) {first second : List Char} (plain : ':' ∉ first)
    (closed : ']' ∉ second) (rest : List Char) :
    bounds? number ('[' :: (first ++ ':' :: (second ++ ']' :: rest))) =
      (number first).bind fun a => (number second).map fun b => (a, b) := by
  rw [bounds?, takeWhile_mark plain, dropWhile_mark plain, List.drop_one, List.tail_cons,
    takeWhile_mark closed]

/-- Deciding this of the characters spares decoding the text. -/
theorem tokens_spelled {line : String} {chars : List Char} (spelled : line = String.ofList chars) :
    tokens line = (chars.splitOn ' ').filter (· ≠ []) := by
  rw [tokens, toList_spelled spelled]

theorem hexadecimal?_hex (width n : Nat) :
    hexadecimal? ('0' :: 'x' :: (Numeral.hex width n).toList) = some n :=
  number?_hex width n

theorem bounds?_range (first last : Nat) :
    bounds? hexadecimal? ("[0x" ++ Numeral.hex 5 first ++ ":0x" ++ Numeral.hex 5 last ++ "]").toList =
      some (first, last) := by
  have opening := toList_spelled (s := "[0x") rfl
  have middle := toList_spelled (s := ":0x") rfl
  have closing := toList_spelled (s := "]") rfl
  have text : ("[0x" ++ Numeral.hex 5 first ++ ":0x" ++ Numeral.hex 5 last ++ "]").toList =
      '[' :: (('0' :: 'x' :: (Numeral.hex 5 first).toList) ++
        ':' :: (('0' :: 'x' :: (Numeral.hex 5 last).toList) ++ [']'])) := by
    simp only [String.toList_append, opening, middle, closing, List.append_assoc, List.cons_append,
      List.nil_append]
  have plain : ':' ∉ '0' :: 'x' :: (Numeral.hex 5 first).toList := by
    simp [not_mem_hex (c := ':') rfl]
  have closed : ']' ∉ '0' :: 'x' :: (Numeral.hex 5 last).toList := by
    simp [not_mem_hex (c := ']') rfl]
  rw [text, bounds?_eq hexadecimal? plain closed, hexadecimal?_hex, hexadecimal?_hex]
  rfl

def spaceLine (m : Memory) (first last : Nat) : String :=
  "   ADDRESS_SPACE " ++ (Listing.MemoryMap.space m).name ++ " RAMB16 [0x" ++ Numeral.hex 5 first ++
    ":0x" ++ Numeral.hex 5 last ++ "]"

theorem spaceLine_eq (m : Memory) (first last : Nat) :
    spaceLine m first last =
      "   ADDRESS_SPACE" ++ " " ++ ((Listing.MemoryMap.space m).name ++ " " ++ ("RAMB16" ++ " " ++
        ("[0x" ++ Numeral.hex 5 first ++ ":0x" ++ Numeral.hex 5 last ++ "]"))) := by
  have lead : "   ADDRESS_SPACE" ++ " " = "   ADDRESS_SPACE " := rfl
  have middle : " " ++ ("RAMB16" ++ (" " ++ "[0x")) = " RAMB16 [0x" := rfl
  unfold spaceLine
  rw [lead, ← middle]
  simp only [String.append_assoc]

theorem addressSpace?_spaceLine (m : Memory) (first last : Nat) :
    addressSpace? (spaceLine m first last) = some (first, last) := by
  have keyword : tokens "   ADDRESS_SPACE" = ["ADDRESS_SPACE".toList] := by
    rw [tokens_spelled rfl, toList_spelled (s := "ADDRESS_SPACE") rfl]
    decide
  have kind : tokens "RAMB16" = ["RAMB16".toList] := by
    rw [tokens_spelled rfl, toList_spelled (s := "RAMB16") rfl]
    decide
  have name : tokens (Listing.MemoryMap.space m).name = [(Listing.MemoryMap.space m).name.toList] := by
    cases m <;> rw [Listing.MemoryMap.space, tokens_spelled rfl, toList_spelled rfl] <;> decide
  have range : tokens ("[0x" ++ Numeral.hex 5 first ++ ":0x" ++ Numeral.hex 5 last ++ "]") =
      [("[0x" ++ Numeral.hex 5 first ++ ":0x" ++ Numeral.hex 5 last ++ "]").toList] := by
    have digits := not_mem_hex (c := ' ') rfl 5
    apply tokens_word
    · simp
    · simp [digits]
  rw [addressSpace?, spaceLine_eq, tokens_append, tokens_append, tokens_append, keyword, kind, name, range]
  simp only [List.singleton_append, if_pos]
  exact bounds?_range first last

def laneLine (m : Memory) (number : Nat) : String :=
  "         " ++ (Listing.MemoryMap.space m).instancePath ++ Numeral.decimal number ++ " " ++
    (Listing.MemoryMap.space m).bus ++ ";"

theorem tokens_laneLine (m : Memory) (number : Nat) :
    tokens (laneLine m number) =
      [((Listing.MemoryMap.space m).instancePath ++ Numeral.decimal number).toList,
        ((Listing.MemoryMap.space m).bus ++ ";").toList] := by
  have blanks : tokens "        " = [] := by
    rw [tokens_spelled rfl]
    decide
  have path : tokens ((Listing.MemoryMap.space m).instancePath ++ Numeral.decimal number) =
      [((Listing.MemoryMap.space m).instancePath ++ Numeral.decimal number).toList] := by
    apply tokens_word
    · simp [Numeral.decimal, Nat.toDigits_ne_nil]
    · refine not_mem_append ?_ (not_mem_decimal rfl number)
      cases m <;> exact not_mem_spelled rfl (by decide)
  have bits : tokens ((Listing.MemoryMap.space m).bus ++ ";") =
      [((Listing.MemoryMap.space m).bus ++ ";").toList] := by
    apply tokens_word
    · simp
    · refine not_mem_append ?_ (not_mem_spelled rfl (by decide))
      cases m <;> exact not_mem_spelled rfl (by decide)
  have line : laneLine m number =
      "        " ++ " " ++ ((Listing.MemoryMap.space m).instancePath ++ Numeral.decimal number ++ " " ++
        ((Listing.MemoryMap.space m).bus ++ ";")) := by
    have lead : "        " ++ " " = "         " := rfl
    unfold laneLine
    rw [lead]
    simp only [String.append_assoc]
  rw [line, tokens_append, tokens_append, blanks, path, bits]
  rfl

/-- The last part of a path is the name of the instance. -/
theorem getLastD_path (m : Memory) (number : Nat) :
    (((Listing.MemoryMap.space m).instancePath ++ Numeral.decimal number).toList.splitOn '/').getLastD [] =
      (BlockRam.instanceName m number).toList := by
  have parts : ∃ directory name : List Char,
      (Listing.MemoryMap.space m).instancePath.toList = directory ++ '/' :: name ∧ '/' ∉ name ∧
        (BlockRam.instanceName m number).toList = name ++ (Numeral.decimal number).toList := by
    cases m with
    | program =>
      refine ⟨"CPU/PROG_MEM".toList, "MemoriaProg".toList, ?_, not_mem_spelled rfl (by decide),
        String.toList_append⟩
      rw [Listing.MemoryMap.space, toList_spelled rfl, toList_spelled (s := "CPU/PROG_MEM") rfl,
        toList_spelled (s := "MemoriaProg") rfl]
      rfl
    | data =>
      refine ⟨"CPU/RAM".toList, "MemoriaRam".toList, ?_, not_mem_spelled rfl (by decide),
        String.toList_append⟩
      rw [Listing.MemoryMap.space, toList_spelled rfl, toList_spelled (s := "CPU/RAM") rfl,
        toList_spelled (s := "MemoriaRam") rfl]
      rfl
  obtain ⟨directory, name, path, solid, named⟩ := parts
  have last : '/' ∉ name ++ (Numeral.decimal number).toList := by
    rw [List.mem_append, not_or]
    exact ⟨solid, not_mem_decimal rfl number⟩
  rw [String.toList_append, path, named, List.append_assoc, List.cons_append, List.splitOn_append_cons_self,
    List.splitOn_eq_singleton last]
  simp

/-- A block is as wide as the words of its memory. -/
def lane (m : Memory) (number : Nat) : Lane :=
  ⟨BlockRam.instanceName m number, BlockRam.wordBits m - 1, 0⟩

theorem lane?_laneLine (m : Memory) (number : Nat) : lane? (laneLine m number) = some (lane m number) := by
  have bits : bounds? (number? 10) ((Listing.MemoryMap.space m).bus ++ ";").toList =
      some (BlockRam.wordBits m - 1, 0) := by
    rw [String.toList_append, toList_spelled (s := ";") rfl]
    cases m <;> rw [Listing.MemoryMap.space, toList_spelled rfl] <;> decide
  rw [lane?, tokens_laneLine]
  simp only [bits, Option.map_some, getLastD_path, String.ofList_toList]
  rfl

/-- The lines that open and close a part have one token each. -/
theorem tokens_marks :
    tokens "      BUS_BLOCK" = [['B', 'U', 'S', '_', 'B', 'L', 'O', 'C', 'K']] ∧
    tokens "      END_BUS_BLOCK;" = [['E', 'N', 'D', '_', 'B', 'U', 'S', '_', 'B', 'L', 'O', 'C', 'K', ';']] ∧
    tokens "   END_ADDRESS_SPACE;" =
      [['E', 'N', 'D', '_', 'A', 'D', 'D', 'R', 'E', 'S', 'S', '_', 'S', 'P', 'A', 'C', 'E', ';']] := by
  rw [tokens_spelled rfl, tokens_spelled rfl, tokens_spelled rfl]
  decide

theorem block_eq (m : Memory) (number : Nat) :
    Listing.MemoryMap.block (Listing.MemoryMap.space m) number =
      ["      BUS_BLOCK", laneLine m number, "      END_BUS_BLOCK;"] := rfl

theorem busBlocks_blocks (m : Memory) (numbers : List Nat) :
    busBlocks (numbers.flatMap (Listing.MemoryMap.block (Listing.MemoryMap.space m))) =
      numbers.map fun number => [lane m number] := by
  obtain ⟨opening, closing, -⟩ := tokens_marks
  have keyword := toList_spelled (s := "BUS_BLOCK") rfl
  have opened : busBlock? "      BUS_BLOCK" = some () := by rw [busBlock?, opening, keyword, if_pos rfl]
  have unopened : ∀ number, ∀ line ∈ [laneLine m number] ++ ["      END_BUS_BLOCK;"],
      busBlock? line = none := by
    intro number line member
    rcases List.mem_append.mp member with inside | last
    · rw [List.mem_singleton.mp inside, busBlock?, tokens_laneLine, if_neg (by simp)]
    · rw [List.mem_singleton.mp last, busBlock?, closing, keyword, if_neg (by decide)]
  have unclosed : ∀ number, "      END_BUS_BLOCK;" ∉ [laneLine m number] := by
    intro number member
    have same := congrArg (fun line => (tokens line).length) (List.mem_singleton.mp member)
    rw [closing, tokens_laneLine] at same
    simp at same
  induction numbers with
  | nil => rfl
  | cons number numbers ih =>
    have first := sections_cons opened (unopened number) (unclosed number)
      (numbers.flatMap (Listing.MemoryMap.block (Listing.MemoryMap.space m)))
    rw [List.singleton_append] at first
    rw [List.flatMap_cons, block_eq, busBlocks, List.cons_append, List.cons_append, List.singleton_append,
      first, List.map_cons, List.map_cons, ← ih]
    simp [busBlocks, lane?_laneLine]

/-- No line inside an address space opens or closes one. -/
theorem quiet_blocks (m : Memory) (numbers : List Nat) :
    ∀ line ∈ numbers.flatMap (Listing.MemoryMap.block (Listing.MemoryMap.space m)),
      addressSpace? line = none ∧ line ≠ "   END_ADDRESS_SPACE;" := by
  obtain ⟨opening, closing, last⟩ := tokens_marks
  intro line member
  obtain ⟨number, -, inside⟩ := List.mem_flatMap.mp member
  -- Lines are told apart by their tokens, which do not depend on how far they are indented.
  have other : tokens line ≠ tokens "   END_ADDRESS_SPACE;" → line ≠ "   END_ADDRESS_SPACE;" := by
    rintro different rfl
    exact different rfl
  simp only [block_eq, List.mem_cons, List.not_mem_nil, or_false] at inside
  rcases inside with rfl | rfl | rfl
  · refine ⟨by rw [addressSpace?, opening], other ?_⟩
    rw [opening, last]
    decide
  · refine ⟨by rw [addressSpace?, tokens_laneLine], other ?_⟩
    rw [tokens_laneLine, last]
    simp
  · refine ⟨by rw [addressSpace?, closing], other ?_⟩
    rw [closing, last]
    decide

/-- The bytes of a memory, and one bus block for each of its blocks. -/
def spaceOf {m : Memory} (size : Size m) : Space where
  first := HexDump.byteAddress m 0
  last := HexDump.byteAddress m size.count - 1
  blocks := (List.range size.blocks).map fun number => [lane m number]

theorem sections_addressSpace {m : Memory} (size : Size m) (rest : List String) :
    sections addressSpace? "   END_ADDRESS_SPACE;" (Listing.MemoryMap.addressSpace size ++ rest) =
      (((spaceOf size).first, (spaceOf size).last), (List.range size.blocks).flatMap
        (Listing.MemoryMap.block (Listing.MemoryMap.space m))) ::
      sections addressSpace? "   END_ADDRESS_SPACE;" rest := by
  have quiet := quiet_blocks m (List.range size.blocks)
  have lines : Listing.MemoryMap.addressSpace size ++ rest =
      spaceLine m (spaceOf size).first (spaceOf size).last ::
        ((List.range size.blocks).flatMap (Listing.MemoryMap.block (Listing.MemoryMap.space m)) ++
          "   END_ADDRESS_SPACE;" :: rest) := by
    have base : (Listing.HexDump.layout m).base = HexDump.byteAddress m 0 := by cases m <;> rfl
    simp only [Listing.MemoryMap.addressSpace, HexDump.byteAddress_eq]
    rw [base, List.append_assoc, List.append_assoc]
    rfl
  have unopened : ∀ line ∈ (List.range size.blocks).flatMap
      (Listing.MemoryMap.block (Listing.MemoryMap.space m)) ++ ["   END_ADDRESS_SPACE;"],
      addressSpace? line = none := by
    simp only [List.forall_mem_append, List.forall_mem_singleton]
    refine ⟨fun line member => (quiet line member).1, ?_⟩
    rw [addressSpace?, tokens_marks.2.2]
  rw [lines, sections_cons (addressSpace?_spaceLine m _ _) unopened fun member => (quiet _ member).2 rfl]

theorem whole_addressSpace {m : Memory} (size : Size m) :
    ∀ line ∈ Listing.MemoryMap.addressSpace size, '\n' ∉ line.toList := by
  have fields : '\n' ∉ (Listing.MemoryMap.space m).name.toList ∧
      '\n' ∉ (Listing.MemoryMap.space m).instancePath.toList ∧
      '\n' ∉ (Listing.MemoryMap.space m).bus.toList := by
    cases m <;> and_intros <;> exact not_mem_spelled rfl (by decide)
  obtain ⟨name, path, bus⟩ := fields
  have blocks : ∀ number, ∀ line ∈ Listing.MemoryMap.block (Listing.MemoryMap.space m) number,
      '\n' ∉ line.toList := by
    intro number
    simp only [Listing.MemoryMap.block, List.forall_mem_cons, List.not_mem_nil, false_implies, implies_true,
      and_true, not_mem_append_iff, path, bus, not_mem_decimal (c := '\n') rfl, not_false_eq_true]
    and_intros <;> exact not_mem_spelled rfl (by decide)
  simp only [Listing.MemoryMap.addressSpace, List.forall_mem_append, List.forall_mem_singleton,
    not_mem_append_iff, name, not_mem_hex (c := '\n') rfl, not_false_eq_true, and_true]
  refine ⟨⟨?_, ?_⟩, not_mem_spelled rfl (by decide)⟩
  · and_intros <;> exact not_mem_spelled rfl (by decide)
  · intro line member
    obtain ⟨number, -, inside⟩ := List.mem_flatMap.mp member
    exact blocks number line inside

theorem textLines_render (images : Images) :
    textLines (Listing.Format.memoryMap.render images) = Listing.MemoryMap.lines images.sizes := by
  apply textLines_intercalate
  · simp [Listing.MemoryMap.lines]
  · simp only [Listing.MemoryMap.lines, List.forall_mem_append, List.forall_mem_singleton]
    exact ⟨⟨⟨not_mem_spelled rfl (by decide), whole_addressSpace _⟩, whole_addressSpace _⟩,
      not_mem_spelled rfl (by decide)⟩

/-- A map has two address spaces, that of program memory first. -/
theorem spaces_render (images : Images) :
    spaces (Listing.Format.memoryMap.render images) =
      [spaceOf images.sizes.program, spaceOf images.sizes.data] := by
  have first : addressSpace? "ADDRESS_MAP JPU16 PPC405 0" = none := by
    rw [addressSpace?, tokens_spelled rfl, toList_spelled (s := "ADDRESS_SPACE") rfl]
    decide
  have last : addressSpace? "END_ADDRESS_MAP;" = none := by
    rw [addressSpace?, tokens_spelled rfl, toList_spelled (s := "ADDRESS_SPACE") rfl]
    decide
  rw [spaces, textLines_render, Listing.MemoryMap.lines, List.append_assoc, List.append_assoc,
    sections_append (by simpa using first), sections_addressSpace, sections_addressSpace]
  simp only [sections, last, List.map_cons, busBlocks_blocks]
  rfl

end TwoPass.Reading.MemoryMap
