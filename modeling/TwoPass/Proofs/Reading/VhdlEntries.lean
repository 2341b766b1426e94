import TwoPass.Proofs.Reading.VhdlText

/-! The entries of an aggregate, as a map from addresses to words. They name the used
cells in the order of their addresses, each word has all digits of its memory, and the
address buses of the size package reach every address. -/
namespace TwoPass.Reading.Vhdl

/-- A field of binary digits of an exact width. -/
def BinaryField (width : Nat) (digits : List Char) : Prop :=
  digits.length = width ∧ ∀ c ∈ digits, c = '0' ∨ c = '1'

/-- A program word shows opcode, register and literal apart; a data word is one number. -/
def WordForm : Memory → String → Prop
  | .program, word => ∃ opcode register literal : String,
      word = "B\"" ++ (opcode ++ "_" ++ register ++ "_" ++ literal) ++ "\"" ∧
        BinaryField 6 opcode.toList ∧ BinaryField 4 register.toList ∧ BinaryField 16 literal.toList
  | .data, word => ∃ digits : String, word = "X\"" ++ digits ++ "\"" ∧ HexField 4 digits.toList

def EntryForm (m : Memory) (line : String) : Prop :=
  ∃ address word : String, line = "      " ++ address ++ " => " ++ word ++ "," ∧
    (number? 10 address.toList).isSome ∧ WordForm m word

/-- A list of all used cells that a memory has room for, with their words. -/
structure Enumerates {m : Memory} (image : Image m) (words : List (Nat × Nat)) : Prop where
  increasing : words.Pairwise fun p q => p.1 < q.1
  mem_iff : ∀ a n, (a, n) ∈ words ↔
    a < image.capacity ∧ (image.cellAt a).used = true ∧ (image.cellAt a).value = n

/-- How the line begins that declares the width of an address bus. -/
def busLead : Memory → String
  | .program => "   constant nBits_DirProg: integer := "
  | .data => "   constant nBits_DirDatos: integer := "

def busWidth? (m : Memory) (line : String) : Option Nat :=
  ((busLead m).toList.isPrefixOf? line.toList).bind fun text => number? 10 (text.takeWhile (· ≠ ';'))

/-- The widths that the size package declares for the address bus of a memory. -/
def busWidths (m : Memory) (text : String) : List Nat :=
  (between (· = "package JPU16_MEM_SIZE_DEFS is") "end JPU16_MEM_SIZE_DEFS;" (textLines text)).filterMap
    (busWidth? m)

theorem mem_toDigits_two {n : Nat} {c : Char} (member : c ∈ Nat.toDigits 2 n) : c = '0' ∨ c = '1' := by
  have digit : ∀ d < 2, d.digitChar = '0' ∨ d.digitChar = '1' := by decide
  induction n using Nat.strongRecOn with
  | _ n ih =>
    rw [Nat.toDigits_eq_if (by decide)] at member
    split at member
    · rename_i small
      rw [List.mem_singleton.mp member]
      exact digit n small
    · rcases List.mem_append.mp member with earlier | last
      · exact ih (n / 2) (by omega) earlier
      · rw [List.mem_singleton.mp last]
        exact digit (n % 2) (Nat.mod_lt n (by decide))

theorem binaryField_binary {width n : Nat} (wide : 0 < width) (fits : n < 2 ^ width) :
    BinaryField width (Numeral.binary width n).toList := by
  constructor
  · exact length_binary wide fits
  · intro c member
    rw [Numeral.binary, String.toList_ofList, Numeral.digits, List.leftpad] at member
    rcases List.mem_append.mp member with padding | digits
    · exact .inl (List.eq_of_mem_replicate padding)
    · exact mem_toDigits_two digits

/-- Words of a cell in the format of its memory fill their fields. -/
theorem wordForm_wordText {m : Memory} {c : Cell} (formed : c.Formed m) : WordForm m (wordText m c) := by
  cases m with
  | program =>
    have opcode : c.upper.toNat / 16 % 64 < 2 ^ 6 := Nat.mod_lt _ (by decide)
    have register : c.upper.toNat % 16 < 2 ^ 4 := Nat.mod_lt _ (by decide)
    exact ⟨_, _, _, rfl, binaryField_binary (by decide) opcode, binaryField_binary (by decide) register,
      binaryField_binary (by decide) c.literal.isLt⟩
  | data => exact ⟨_, rfl, hexField_hex (by decide) formed.value_lt_word⟩

theorem enumerates_usedCells {m : Memory} (image : Image m) :
    Enumerates image (image.usedCells.map fun p => (p.1, p.2.value)) := by
  constructor
  · rw [List.pairwise_map]
    -- A cell that is listed stands beside its own address, so the range gives the order.
    refine List.Pairwise.filterMap _ ?_ List.pairwise_lt_range
    intro a b less p listed q next
    rw [Option.ite_none_right_eq_some, Option.some.injEq] at listed next
    obtain ⟨-, rfl⟩ := listed
    obtain ⟨-, rfl⟩ := next
    exact less
  · intro a n
    simp only [List.mem_map, Prod.exists, Prod.mk.injEq, mem_usedCells_iff]
    constructor
    · rintro ⟨b, c, ⟨below, used, rfl⟩, rfl, value⟩
      exact ⟨below, used, value⟩
    · rintro ⟨below, used, value⟩
      exact ⟨a, _, ⟨below, used, rfl⟩, rfl, value⟩

theorem entryForm_entries {images : Images} (sound : images.Sound) (m : Memory) :
    ∀ line ∈ entries m (Listing.Format.vhdl.render images), EntryForm m line := by
  rw [entries_render sound, List.forall_mem_map]
  rintro ⟨a, c⟩ listed
  obtain ⟨-, -, rfl⟩ := mem_usedCells_iff.mp listed
  refine ⟨_, _, rfl, ?_, wordForm_wordText (sound.formed_cellAt m a)⟩
  rw [number?_decimal]
  rfl

theorem map_element?_entries {images : Images} (sound : images.Sound) (m : Memory) :
    (entries m (Listing.Format.vhdl.render images)).map element? =
      ((images.image m).usedCells.map fun p => (p.1, p.2.value)).map fun word => some (some word.1, word.2) := by
  rw [entries_render sound, List.map_map, List.map_map]
  apply List.map_congr_left
  intro p listed
  have fits := value_lt_of_mem_usedCells (fun a => (sound.formed_cellAt m a).value_lt) listed
  rw [Function.comp_apply, element?_entry m fits p.1, Function.comp_apply]

def busDeclaration (m : Memory) (bits : Nat) : String :=
  busLead m ++ Numeral.decimal bits ++ ";"

theorem busWidth?_busDeclaration (m : Memory) (bits : Nat) : busWidth? m (busDeclaration m bits) = some bits := by
  rw [busWidth?, busDeclaration, String.toList_append, String.toList_append, List.append_assoc,
    isPrefixOf?_append, Option.bind_some, toList_spelled (s := ";") rfl,
    takeWhile_mark (not_mem_decimal rfl bits), number?_decimal]

theorem busWidth?_of_ne {m n : Memory} (different : m ≠ n) (bits : Nat) :
    busWidth? m (busDeclaration n bits) = none := by
  have program := toList_spelled (s := "   constant nBits_DirProg: integer := ") rfl
  have data := toList_spelled (s := "   constant nBits_DirDatos: integer := ") rfl
  cases m with
  | program =>
    cases n with
    | program => exact absurd rfl different
    | data => simp [busWidth?, busDeclaration, busLead, program, data, List.isPrefixOf?]
  | data =>
    cases n with
    | program => simp [busWidth?, busDeclaration, busLead, program, data, List.isPrefixOf?]
    | data => exact absurd rfl different

theorem ne_busDeclaration (m : Memory) (bits : Nat) : "end JPU16_MEM_SIZE_DEFS;" ≠ busDeclaration m bits := by
  have indented : ∃ chars, (busLead m).toList = ' ' :: chars := by
    cases m with
    | program => exact ⟨_, toList_spelled rfl⟩
    | data => exact ⟨_, toList_spelled rfl⟩
  obtain ⟨chars, lead⟩ := indented
  intro same
  have texts := congrArg String.toList same
  rw [busDeclaration, String.toList_append, String.toList_append, lead,
    toList_spelled (s := "end JPU16_MEM_SIZE_DEFS;") rfl] at texts
  simp at texts

/-- The size package declares each address bus once, as wide as the memory needs it. -/
theorem busWidths_render (images : Images) (m : Memory) :
    busWidths m (Listing.Format.vhdl.render images) = [(images.sizes.size m).addressBits] := by
  let declarations := [busDeclaration .program images.sizes.program.addressBits,
    busDeclaration .data images.sizes.data.addressBits]
  have package : ∃ rest, Listing.Vhdl.lines images = (Listing.Entity.sizePackage images.sizes).take 3 ++
      "package JPU16_MEM_SIZE_DEFS is" :: (declarations ++ "end JPU16_MEM_SIZE_DEFS;" :: rest) := ⟨_, rfl⟩
  obtain ⟨rest, lines⟩ := package
  have unopened : ∀ line ∈ (Listing.Entity.sizePackage images.sizes).take 3,
      decide (line = "package JPU16_MEM_SIZE_DEFS is") = false := by
    simp [Listing.Entity.sizePackage]
  have unclosed : "end JPU16_MEM_SIZE_DEFS;" ∉ declarations := by
    simp [declarations, ne_busDeclaration]
  rw [busWidths, textLines_render, lines, between_eq unopened (decide_eq_true rfl) unclosed]
  cases m with
  | program => simp [declarations, busWidth?_busDeclaration, busWidth?_of_ne, Sizes.size]
  | data => simp [declarations, busWidth?_busDeclaration, busWidth?_of_ne, Sizes.size]

/-- No other line of a description opens the aggregate of a memory. -/
theorem count_opening (images : Images) (m : Memory) :
    (textLines (Listing.Format.vhdl.render images)).count (opening m) = 1 := by
  obtain ⟨first, second, third, plain, lines⟩ := lines_eq images
  simp only [List.forall_mem_append] at plain
  obtain ⟨⟨before, middle⟩, after⟩ := plain
  have absent : ∀ part : List String, (∀ line ∈ part, Plain announcements line) →
      part.count (opening m) = 0 := by
    intro part plain
    apply List.count_eq_zero_of_not_mem
    exact fun member => ne_opening (plain _ member) m rfl
  have program : (Listing.Vhdl.aggregate (wordText .program) images.program).count (opening m) = 0 :=
    absent _ plain_aggregate
  have data : (Listing.Vhdl.aggregate (wordText .data) images.data).count (opening m) = 0 :=
    absent _ plain_aggregate
  have closed : "   );" ≠ opening m := ne_opening (.of rfl (by decide)) m
  have different : opening .program ≠ opening .data := by decide
  rw [textLines_render, lines]
  cases m with
  | program =>
    simp only [List.count_append, List.count_cons_self, List.count_cons_of_ne different.symm,
      List.count_cons_of_ne closed, absent _ before, absent _ middle, absent _ after, program, data]
  | data =>
    simp only [List.count_append, List.count_cons_self, List.count_cons_of_ne different,
      List.count_cons_of_ne closed, absent _ before, absent _ middle, absent _ after, program, data]

theorem entries_enclosed {images : Images} (sound : images.Sound) (m : Memory) :
    opening m :: (entries m (Listing.Format.vhdl.render images) ++ [others m]) <:+:
      textLines (Listing.Format.vhdl.render images) := by
  obtain ⟨before, after, -, eq⟩ := lines_entries images m
  refine ⟨before, after, ?_⟩
  rw [entries_render sound, textLines_render, eq]
  simp only [List.append_assoc, List.cons_append, List.nil_append]

/-- Reading the entries of a description gives the map from the addresses of used cells to
their words: every used cell once, in the order of the addresses, with its whole word. -/
theorem vhdl_round_trip (s : Session) (reachable : s.Reachable) (images : Images)
    (resolved : s.resolve = .ok images) (m : Memory) :
    opening m :: (entries m (Listing.Format.vhdl.render images) ++ [others m]) <:+:
      textLines (Listing.Format.vhdl.render images) ∧
    (textLines (Listing.Format.vhdl.render images)).count (opening m) = 1 ∧
    (∀ line ∈ entries m (Listing.Format.vhdl.render images), EntryForm m line) ∧
    ∃ (words : List (Nat × Nat)) (bits : Nat),
      (entries m (Listing.Format.vhdl.render images)).map element? =
        words.map (fun word => some (some word.1, word.2)) ∧
      Enumerates (images.image m) words ∧
      busWidths m (Listing.Format.vhdl.render images) = [bits] ∧ ∀ word ∈ words, word.1 < 2 ^ bits := by
  have sound := reachable.sound resolved
  have enumerates := enumerates_usedCells (images.image m)
  refine ⟨entries_enclosed sound m, count_opening images m, entryForm_entries sound m, _, _,
    map_element?_entries sound m, enumerates, busWidths_render images m, ?_⟩
  intro word listed
  obtain ⟨below, -⟩ := (enumerates.mem_iff word.1 word.2).mp listed
  calc word.1 < (images.image m).capacity := below
    _ = 2 ^ (images.sizes.size m).addressBits := by
      rw [sound.capacity m, ← Size.shiftLeft_addressBits, Nat.one_shiftLeft]

/-- A program word of ones only, a placed data word and one that pass 2 stores. -/
def scattered (a : Address) : List Occurrence :=
  [.call (.place .program 0x3FFFFFF 1), .call (.place .data (-1) 2), .call (.defer ⟨.literal 7, 3⟩),
    .call (.defer ⟨.store .data a, 3⟩)]

theorem vhdl_round_trip_scattered :
    ∃ images, ((Session.start {}).after (scattered 5)).resolve = .ok images ∧
      ∀ m, ∃ (words : List (Nat × Nat)) (bits : Nat),
        (entries m (Listing.Format.vhdl.render images)).map element? =
          words.map (fun word => some (some word.1, word.2)) ∧
        busWidths m (Listing.Format.vhdl.render images) = [bits] ∧
        match m with
        | .program => (0, 0x3FFFFFF) ∈ words
        | .data => (0, 0xFFFF) ∈ words ∧ (5, 7) ∈ words ∧ ∀ n, (1, n) ∉ words := by
  refine ⟨_, rfl, ?_⟩
  intro m
  obtain ⟨-, -, -, words, bits, read, ⟨-, mem_iff⟩, widths, -⟩ :=
    vhdl_round_trip _ ⟨{}, scattered 5, rfl⟩ _ rfl m
  refine ⟨words, bits, read, widths, ?_⟩
  cases m with
  | program => exact (mem_iff _ _).mpr (by decide)
  | data =>
    refine ⟨(mem_iff _ _).mpr (by decide), (mem_iff _ _).mpr (by decide), ?_⟩
    intro n listed
    obtain ⟨-, used, -⟩ := (mem_iff 1 n).mp listed
    revert used
    decide

end TwoPass.Reading.Vhdl
