import TwoPass.Listing.Format
import TwoPass.Proofs.History
import TwoPass.Proofs.Reading.Entity
import TwoPass.Proofs.Reading.Text

/-! The contents that behavioural VHDL gives to its memories. Each memory is initialised
by one aggregate; an address that is not among its choices has the word of the others. -/
namespace TwoPass.Reading.Vhdl

def opening : Memory → String
  | .program => "   constant MemoriaProg: PROG_DATA := ("
  | .data => "   signal MemoriaRam: RAM_DATA := ("

/-- A choice of an aggregate: an address, or none for all others. -/
def choice? (name : List Char) : Option (Option Nat) :=
  if name = "others".toList then some none else (number? 10 name).map some

def element? (line : String) : Option (Option Nat × Nat) :=
  (association? "      " line).bind fun named => (choice? named.1).map fun choice => (choice, named.2)

/-- The words given to a memory, by their choices. -/
def aggregate (m : Memory) (text : String) : List (Option Nat × Nat) :=
  (between (· = opening m) "   );" (textLines text)).filterMap element?

def word? (m : Memory) (text : String) (a : Nat) : Option Nat :=
  ((aggregate m text).lookup (some a)).or ((aggregate m text).lookup none)

def wordText : Memory → Cell → String
  | .program => Listing.Vhdl.programWord
  | .data => Listing.Vhdl.dataWord

theorem numberFrom?_binary (k width n : Nat) :
    numberFrom? 2 k (Numeral.binary width n).toList =
      some (k * 2 ^ (Numeral.binary width n).toList.length + n) := by
  have digit : ∀ d < 2, digit? (id d.digitChar) = some d := by decide
  have read := numberFrom?_digits id (by decide) digit k width n
  rw [List.map_id] at read
  rw [Numeral.binary, String.toList_ofList, read]

theorem not_mem_binary {c : Char} (other : digit? c = none) (width n : Nat) :
    c ∉ (Numeral.binary width n).toList :=
  fun member => digit?_of_numberFrom? (numberFrom?_binary 0 width n) member other

theorem length_binary {width n : Nat} (wide : 0 < width) (fits : n < 2 ^ width) :
    (Numeral.binary width n).toList.length = width := by
  rw [Numeral.binary, String.toList_ofList]
  exact length_digits (by decide) wide fits

/-- Three binary fields with underscores between them. -/
theorem bitString?_fields (x y z : Nat) (narrow : y < 2 ^ 4) (half : z < 2 ^ 16) (rest : String) :
    bitString? ("B\"" ++ (Numeral.binary 6 x ++ "_" ++ Numeral.binary 4 y ++ "_" ++ Numeral.binary 16 z) ++
      "\"" ++ rest).toList = some ((x * 2 ^ 4 + y) * 2 ^ 16 + z) := by
  let body := (Numeral.binary 6 x).toList ++
    '_' :: ((Numeral.binary 4 y).toList ++ '_' :: (Numeral.binary 16 z).toList)
  have text : ("B\"" ++ (Numeral.binary 6 x ++ "_" ++ Numeral.binary 4 y ++ "_" ++ Numeral.binary 16 z) ++
      "\"" ++ rest).toList = 'B' :: '"' :: (body ++ '"' :: rest.toList) := by
    have letter := toList_spelled (s := "B\"") rfl
    have quote := toList_spelled (s := "\"") rfl
    have mark := toList_spelled (s := "_") rfl
    simp only [body, String.toList_append, letter, quote, mark, List.append_assoc, List.cons_append,
      List.nil_append]
  have unquoted : '"' ∉ body := by simp [body, not_mem_binary (c := '"') rfl]
  have digits : body.filter (· ≠ '_') =
      (Numeral.binary 6 x).toList ++ ((Numeral.binary 4 y).toList ++ (Numeral.binary 16 z).toList) := by
    have solid := fun width n => filter_digits (not_mem_binary (c := '_') rfl width n)
    have skip : ∀ l : List Char, ('_' :: l).filter (· ≠ '_') = l.filter (· ≠ '_') := fun _ => rfl
    rw [List.filter_append, skip, List.filter_append, skip, solid, solid, solid]
  rw [text, (bitString?_quoted unquoted _).1, digits, number?, if_neg]
  · rw [numberFrom?_append, numberFrom?_binary, Option.bind_some, numberFrom?_append, numberFrom?_binary,
      Option.bind_some, numberFrom?_binary, length_binary (by decide) narrow, length_binary (by decide) half,
      Nat.zero_mul, Nat.zero_add]
  · simp [Numeral.binary, digits_ne_nil]

theorem bitString?_programWord {c : Cell} (fits : c.value < 2 ^ 26) (rest : String) :
    bitString? (Listing.Vhdl.programWord c ++ rest).toList = some c.value := by
  have upper : c.upper.toNat < 2 ^ 10 := by
    rw [← c.value_div]
    omega
  have narrow : c.upper.toNat % 16 < 2 ^ 4 := Nat.mod_lt _ (by decide)
  rw [Listing.Vhdl.programWord, Listing.Vhdl.wordBits, bitString?_fields _ _ _ narrow c.literal.isLt,
    Cell.value, Option.some.injEq]
  omega

theorem bitString?_hex (width n : Nat) (rest : String) :
    bitString? ("X\"" ++ Numeral.hex width n ++ "\"" ++ rest).toList = some n := by
  have text : ("X\"" ++ Numeral.hex width n ++ "\"" ++ rest).toList =
      'X' :: '"' :: ((Numeral.hex width n).toList ++ '"' :: rest.toList) := by
    have letter := toList_spelled (s := "X\"") rfl
    have quote := toList_spelled (s := "\"") rfl
    simp only [String.toList_append, letter, quote, List.append_assoc, List.cons_append, List.nil_append]
  rw [text, (bitString?_quoted (not_mem_hex rfl _ _) _).2, filter_digits (not_mem_hex rfl _ _), number?_hex]

theorem bitString?_dataWord (c : Cell) (rest : String) :
    bitString? (Listing.Vhdl.dataWord c ++ rest).toList = some c.value :=
  bitString?_hex 4 c.value rest

theorem bitString?_wordText (m : Memory) {c : Cell} (fits : c.value < 2 ^ 26) (rest : String) :
    bitString? (wordText m c ++ rest).toList = some c.value := by
  cases m with
  | program => exact bitString?_programWord fits rest
  | data => exact bitString?_dataWord c rest

theorem choice?_decimal (a : Nat) : choice? (Numeral.decimal a).toList = some (some a) := by
  have different : (Numeral.decimal a).toList ≠ "others".toList := by
    intro same
    have absent := not_mem_decimal (c := 'o') rfl a
    rw [same, toList_spelled (s := "others") rfl] at absent
    simp at absent
  rw [choice?, if_neg different, number?_decimal]
  rfl

theorem element?_entry (m : Memory) {c : Cell} (fits : c.value < 2 ^ 26) (a : Nat) :
    element? (Listing.Vhdl.entry (Numeral.decimal a) (wordText m c) ++ ",") = some (some a, c.value) := by
  have read := association?_eq (not_mem_decimal (c := ' ') rfl a)
    (show Listing.Vhdl.entry (Numeral.decimal a) (wordText m c) ++ "," =
      "      " ++ Numeral.decimal a ++ " => " ++ (wordText m c ++ ",") by
        rw [Listing.Vhdl.entry, String.append_assoc])
  rw [element?, read, bitString?_wordText m fits, Option.map_some, Option.bind_some, choice?_decimal]
  rfl

theorem element?_others (m : Memory) :
    element? (Listing.Vhdl.entry "others" (wordText m (.ofWord 0))) = some (none, 0) := by
  have solid : ' ' ∉ "others".toList := by
    rw [toList_spelled (s := "others") rfl]
    decide
  have zero : (Cell.ofWord 0).value = 0 := by decide
  have read := association?_eq solid
    (show Listing.Vhdl.entry "others" (wordText m (.ofWord 0)) =
      "      " ++ "others" ++ " => " ++ (wordText m (.ofWord 0) ++ "") by
        rw [Listing.Vhdl.entry, String.append_empty])
  have others : choice? "others".toList = some none := if_pos rfl
  rw [element?, read, bitString?_wordText m (by decide), zero, Option.map_some, Option.bind_some, others]
  rfl

theorem mem_usedCells_iff {m : Memory} {image : Image m} {a : Nat} {c : Cell} :
    (a, c) ∈ image.usedCells ↔ a < image.capacity ∧ (image.cellAt a).used = true ∧ image.cellAt a = c := by
  simp only [Image.usedCells, List.mem_filterMap, List.mem_range, Option.ite_none_right_eq_some,
    Option.some.injEq, Prod.mk.injEq]
  constructor
  · rintro ⟨b, below, used, rfl, cell⟩
    exact ⟨below, used, cell⟩
  · rintro ⟨below, used, cell⟩
    exact ⟨a, below, used, rfl, cell⟩

theorem value_lt_of_mem_usedCells {m : Memory} {image : Image m} {bound : Nat}
    (fits : ∀ a, (image.cellAt a).value < bound) {p : Nat × Cell} (listed : p ∈ image.usedCells) :
    p.2.value < bound := by
  obtain ⟨-, -, cell⟩ := mem_usedCells_iff.mp listed
  rw [← cell]
  exact fits p.1

theorem filterMap_element? {m : Memory} {image : Image m}
    (fits : ∀ a, (image.cellAt a).value < 2 ^ 26) :
    (Listing.Vhdl.aggregate (wordText m) image).filterMap element? =
      image.usedCells.map (fun p => (some p.1, p.2.value)) ++ [(none, 0)] := by
  rw [Listing.Vhdl.aggregate, List.filterMap_append, List.filterMap_map]
  simp only [List.filterMap_cons, element?_others, List.filterMap_nil]
  congr 1
  apply List.filterMap_eq_map_iff_forall_eq_some.mpr
  intro p member
  simp only [Function.comp_apply]
  rw [element?_entry m (value_lt_of_mem_usedCells fits member) p.1]

end TwoPass.Reading.Vhdl
