import TwoPass.Proofs.Reading.BlockRam

/-! The layout of a description made of block RAM primitives. Every instance begins with
a numbered line of its own and holds its rows between lines that a reader passes over. -/
namespace TwoPass.Reading.BlockRam

/-- How a line begins that may start an instance. -/
def names : List (List Char) := [[' ', ' ', ' ', 'M']]

/-- How lines begin that matter inside an instance. -/
def marks : List (List Char) :=
  [' ', ' ', ' ', ')'] :: [' ', ' ', ' ', ' ', ' ', ' ', 'I', 'N', 'I', 'T', '_'] :: names

/-- How the lines of rows begin. -/
def rowMark : List Char :=
  [' ', ' ', ' ', ' ', ' ', ' ', 'I', 'N', 'I', 'T', '_']

/-- How the lines of parity rows begin. -/
def parityMark : List Char :=
  [' ', ' ', ' ', ' ', ' ', ' ', 'I', 'N', 'I', 'T', 'P', '_']

def instanceLine (m : Memory) (number : Nat) : String :=
  label m ++ Numeral.decimal number ++ primitive m

theorem number?_instanceLine (m : Memory) (number : Nat) : number? m (instanceLine m number) = some number := by
  have digits := ne_of_not_mem (not_mem_decimal (c := ':') rfl number)
  have colon : ∃ rest, (primitive m).toList = ':' :: rest := by
    cases m with
    | program => exact ⟨_, toList_spelled (s := ": RAMB16_S36") rfl⟩
    | data => exact ⟨_, toList_spelled (s := ": RAMB16_S18") rfl⟩
  obtain ⟨rest, eq⟩ := colon
  rw [number?, instanceLine, String.toList_append, String.toList_append, List.append_assoc, isPrefixOf?_append,
    Option.bind_some, List.dropWhile_append_of_pos digits, List.takeWhile_append_of_pos digits, eq]
  simp [number?_decimal]

theorem prefix_of_isPrefixOf? {lead text rest : List Char} (found : lead.isPrefixOf? text = some rest) :
    lead <+: text :=
  ⟨rest, List.append_eq_of_isPrefixOf?_eq_some found⟩

theorem number?_of_plain {line : String} (plain : Plain names line) (m : Memory) : number? m line = none := by
  rw [number?, Option.bind_eq_none_iff]
  intro text found
  have named : [' ', ' ', ' ', 'M'] <+: (label m).toList := by
    cases m with
    | program =>
      rw [label, toList_spelled (s := "   MemoriaProg") rfl]
      decide
    | data =>
      rw [label, toList_spelled (s := "   MemoriaRam") rfl]
      decide
  exact absurd (named.trans (prefix_of_isPrefixOf? found)) (plain.other _ List.mem_cons_self)

theorem number?_data_program (number : Nat) : number? .data (instanceLine .program number) = none := by
  rw [number?, instanceLine, label, label, String.toList_append, String.toList_append,
    toList_spelled (s := "   MemoriaProg") rfl, toList_spelled (s := "   MemoriaRam") rfl]
  simp [List.isPrefixOf?]

theorem row?_of_plain {line : String} (plain : Plain marks line) : row? line = none := by
  have unfound : association? "      INIT_" line = none := by
    rw [association?, Option.bind_eq_none_iff]
    intro text found
    have begins := prefix_of_isPrefixOf? found
    rw [toList_spelled (s := "      INIT_") rfl] at begins
    exact absurd begins (plain.other _ (List.mem_cons_of_mem _ List.mem_cons_self))
  rw [row?, unfound]
  rfl

theorem plain_registerValues (m : Memory) :
    ∀ line ∈ Listing.BlockRam.registerValues m, Plain (parityMark :: marks) line := by
  cases m <;>
    simp only [Listing.BlockRam.registerValues, List.forall_mem_cons, List.not_mem_nil, false_implies,
      implies_true, and_true] <;>
    and_intros <;> exact .of rfl (by decide)

theorem plain_ports (m : Memory) {number : String} (whole : '\n' ∉ number.toList) :
    ∀ line ∈ Listing.BlockRam.ports m number, Plain (parityMark :: marks) line := by
  cases m with
  | program =>
    have output : Plain (parityMark :: marks) ("      DO => BusProg(" ++ (number ++ "),              --32-bit data output")) :=
      .append rfl (by decide) (not_mem_append whole (not_mem_spelled rfl (by decide)))
    have enable : Plain (parityMark :: marks) ("      EN => CS(" ++ (number ++ "),                   --Enable (chip select) input")) :=
      .append rfl (by decide) (not_mem_append whole (not_mem_spelled rfl (by decide)))
    simp only [Listing.BlockRam.ports, List.forall_mem_cons, String.append_assoc, output, enable,
      List.not_mem_nil, false_implies, implies_true, true_and, and_true]
    and_intros <;> exact .of rfl (by decide)
  | data =>
    have output : Plain (parityMark :: marks) ("      DO => BusRam(" ++ (number ++ "),               --16-bit data output")) :=
      .append rfl (by decide) (not_mem_append whole (not_mem_spelled rfl (by decide)))
    have enable : Plain (parityMark :: marks) ("      EN => CS(" ++ (number ++ "),                   --Enable (chip select) input")) :=
      .append rfl (by decide) (not_mem_append whole (not_mem_spelled rfl (by decide)))
    simp only [Listing.BlockRam.ports, List.forall_mem_cons, String.append_assoc, output, enable,
      List.not_mem_nil, false_implies, implies_true, true_and, and_true]
    and_intros <;> exact .of rfl (by decide)

theorem generic_eq (name : String) (row : Nat) (digits rest : String) :
    Listing.BlockRam.generic name row digits ++ rest =
      "      " ++ name ++ (Numeral.hex 2 row ++ (" => X\"" ++ (digits ++ ("\"" ++ rest)))) := by
  simp only [Listing.BlockRam.generic, String.append_assoc]

theorem whole_generic (row : Nat) {digits rest : String} (values : '\n' ∉ digits.toList)
    (ended : '\n' ∉ rest.toList) :
    '\n' ∉ (Numeral.hex 2 row ++ (" => X\"" ++ (digits ++ ("\"" ++ rest)))).toList :=
  not_mem_append (not_mem_hex rfl 2 row) (not_mem_append (not_mem_spelled rfl (by decide))
    (not_mem_append values (not_mem_append (not_mem_spelled rfl (by decide)) ended)))

theorem plain_parityRows : ∀ line ∈ Listing.BlockRam.parityRows, Plain marks line := by
  intro line member
  obtain ⟨row, -, rfl⟩ := List.mem_map.mp member
  have lead : "      " ++ "INITP_" = "      INITP_" := rfl
  have zeros : '\n' ∉ (String.ofList (List.replicate 64 '0')).toList := not_mem_spelled rfl (by simp)
  have ended : '\n' ∉ (if row + 1 = Listing.BlockRam.parityRowCount then ")" else ",").toList := by
    split
    · exact not_mem_spelled rfl (by decide)
    · exact not_mem_spelled rfl (by decide)
  rw [generic_eq, lead]
  exact .append rfl (by decide) (whole_generic row zeros ended)

theorem plain_rows {m : Memory} (image : Image m) (start : Nat) :
    ∀ line ∈ Listing.BlockRam.rows image start, Plain ([' ', ' ', ' ', ')'] :: names) line := by
  intro line member
  obtain ⟨row, -, rfl⟩ := List.mem_map.mp member
  have lead : "      " ++ "INIT_" = "      INIT_" := rfl
  rw [generic_eq, lead]
  exact .append rfl (by decide) (whole_generic row (not_mem_rowDigits rfl m _) (not_mem_spelled rfl (by decide)))

theorem instanceLine_eq (m : Memory) (number : Nat) :
    "   " ++ (Listing.BlockRam.wiring m).instanceName ++ Numeral.decimal number ++ ": " ++
      (Listing.BlockRam.wiring m).primitive = instanceLine m number := by
  cases m with
  | program =>
    have lead : "   " ++ "MemoriaProg" = "   MemoriaProg" := rfl
    have kind : ": " ++ "RAMB16_S36" = ": RAMB16_S36" := rfl
    rw [instanceLine, label, primitive, ← lead, ← kind, ← String.append_assoc]
    rfl
  | data =>
    have lead : "   " ++ "MemoriaRam" = "   MemoriaRam" := rfl
    have kind : ": " ++ "RAMB16_S18" = ": RAMB16_S18" := rfl
    rw [instanceLine, label, primitive, ← lead, ← kind, ← String.append_assoc]
    rfl

/-- The lines of an instance before its rows. -/
def header (m : Memory) : List String :=
  "   generic map (" :: (Listing.BlockRam.registerValues m ++
    ["      WRITE_MODE => \"READ_FIRST\", --Read before write"])

/-- The lines of an instance after its rows. -/
def connections (m : Memory) (number : Nat) : List String :=
  "   port map (" :: Listing.BlockRam.ports m (Numeral.decimal number)

/-- The lines of an instance from its first to its closing one, without these two. -/
def inner {m : Memory} (image : Image m) (number : Nat) : List String :=
  header m ++ Listing.BlockRam.rows image (number * m.blockWords) ++
    (Listing.BlockRam.parityRows ++ connections m number)

theorem block_eq {m : Memory} (image : Image m) (number : Nat) :
    Listing.BlockRam.block image number =
      instanceLine m number :: (inner image number ++ ["   );", ""]) := by
  simp only [Listing.BlockRam.block, Listing.BlockRam.primitiveInstance, instanceLine_eq, inner, header,
    connections, List.append_assoc, List.cons_append, List.nil_append]

theorem plain_header (m : Memory) : ∀ line ∈ header m, Plain (parityMark :: marks) line := by
  simp only [header, List.forall_mem_append, List.forall_mem_cons, List.not_mem_nil, false_implies,
    implies_true, and_true]
  exact ⟨.of rfl (by decide), plain_registerValues m, .of rfl (by decide)⟩

theorem plain_connections (m : Memory) (number : Nat) :
    ∀ line ∈ connections m number, Plain (parityMark :: marks) line := by
  simp only [connections, List.forall_mem_cons]
  exact ⟨.of rfl (by decide), plain_ports m (not_mem_decimal rfl number)⟩

/-- No line inside an instance closes it or begins another one. -/
theorem plain_inner {m : Memory} (image : Image m) (number : Nat) :
    ∀ line ∈ inner image number, Plain ([' ', ' ', ' ', ')'] :: names) line := by
  have rows : ∀ lead ∈ [' ', ' ', ' ', ')'] :: names, lead ∈ marks := by decide
  have fixed : ∀ lead ∈ [' ', ' ', ' ', ')'] :: names, lead ∈ parityMark :: marks :=
    fun lead member => List.mem_cons_of_mem _ (rows lead member)
  simp only [inner, List.forall_mem_append]
  exact ⟨⟨fun line member => (plain_header m line member).mono fixed, plain_rows image _⟩,
    fun line member => (plain_parityRows line member).mono rows,
    fun line member => (plain_connections m number line member).mono fixed⟩

theorem mem_block {m : Memory} {image : Image m} {number : Nat} {line : String}
    (member : line ∈ Listing.BlockRam.block image number) :
    line = instanceLine m number ∨ Plain names line := by
  have ends : Plain names "   );" ∧ Plain names "" := ⟨.of rfl (by decide), .of rfl (by decide)⟩
  rw [block_eq] at member
  simp only [List.mem_cons, List.mem_append, List.not_mem_nil, or_false] at member
  rcases member with first | inside | closing | blank
  · exact .inl first
  · exact .inr ((plain_inner image number line inside).mono fun lead listed => List.mem_cons_of_mem _ listed)
  · exact .inr (closing ▸ ends.1)
  · exact .inr (blank ▸ ends.2)

theorem whole_wiring (m : Memory) :
    let w := Listing.BlockRam.wiring m
    ∀ field ∈ [w.busType, w.bus, w.busWidth, w.access, w.upperAddress, w.output, w.outputBits],
      '\n' ∉ field.toList := by
  cases m <;>
    simp only [Listing.BlockRam.wiring, List.forall_mem_cons, List.not_mem_nil, false_implies, implies_true,
      and_true] <;>
    and_intros <;> exact not_mem_spelled rfl (by decide)

theorem plain_output (m : Memory) {rest : String} (whole : '\n' ∉ rest.toList) :
    Plain names ("   " ++ ((Listing.BlockRam.wiring m).output ++ rest)) := by
  rw [← String.append_assoc]
  cases m with
  | program =>
    have lead : "   " ++ (Listing.BlockRam.wiring .program).output = "   DatoProg" := rfl
    rw [lead]
    exact .append rfl (by decide) whole
  | data =>
    have lead : "   " ++ (Listing.BlockRam.wiring .data).output = "   DatoSal" := rfl
    rw [lead]
    exact .append rfl (by decide) whole

/-- The lines of an architecture before its instances. -/
theorem plain_head {m : Memory} (size : Size m) :
    let w := Listing.BlockRam.wiring m
    let top := Numeral.decimal (size.blocks - 1)
    ∀ line ∈ ["   type " ++ w.busType ++ " is array (" ++ top ++ " downto 0) of STD_LOGIC_VECTOR (" ++
          w.busWidth ++ ");",
        "",
        "   signal " ++ w.bus ++ ": " ++ w.busType ++ ";",
        "   signal CS: STD_LOGIC_VECTOR (" ++ top ++ " downto 0);",
        "begin",
        "   Chip_Select: for i in 0 to " ++ top ++ " generate",
        "      CS(i) <= '1' when " ++ w.access ++ " and",
        "               " ++ w.upperAddress ++ " = i else '0';",
        "   end generate;",
        "   CS(0) <= '1' when " ++ w.access ++ " else '0';"], Plain names line := by
  have decimal := not_mem_decimal (c := '\n') rfl (size.blocks - 1)
  have fields := whole_wiring m
  simp only [List.forall_mem_cons, List.not_mem_nil, false_implies, implies_true, and_true] at fields
  obtain ⟨busType, bus, busWidth, access, upperAddress, -⟩ := fields
  simp only [List.forall_mem_cons, List.not_mem_nil, false_implies, implies_true, and_true,
    String.append_assoc]
  refine ⟨.append rfl (by decide) ?_, .of rfl (by decide), .append rfl (by decide) ?_,
    .append rfl (by decide) ?_, .of rfl (by decide), .append rfl (by decide) ?_,
    .append rfl (by decide) ?_, .append rfl (by decide) ?_, .of rfl (by decide), .append rfl (by decide) ?_⟩
  all_goals
    simp only [not_mem_append_iff, decimal, busType, bus, busWidth, access, upperAddress,
      not_false_eq_true, true_and]
  all_goals and_intros <;> exact not_mem_spelled rfl (by decide)

/-- The lines of an architecture after its instances. -/
theorem plain_tail (m : Memory) :
    let w := Listing.BlockRam.wiring m
    ∀ line ∈ ["   " ++ w.output ++ " <= " ++ w.bus ++ "(conv_integer(" ++ w.upperAddress ++ "))" ++
          w.outputBits ++ ";",
        "   " ++ w.output ++ " <= " ++ w.bus ++ "(0)" ++ w.outputBits ++ ";",
        "end Funcionamiento;"], Plain names line := by
  have fields := whole_wiring m
  simp only [List.forall_mem_cons, List.not_mem_nil, false_implies, implies_true, and_true] at fields
  obtain ⟨-, bus, -, -, upperAddress, -, outputBits⟩ := fields
  simp only [List.forall_mem_cons, List.not_mem_nil, false_implies, implies_true, and_true,
    String.append_assoc]
  refine ⟨plain_output m ?_, plain_output m ?_, .of rfl (by decide)⟩
  all_goals
    simp only [not_mem_append_iff, bus, upperAddress, outputBits, not_false_eq_true, true_and]
  all_goals and_intros <;> exact not_mem_spelled rfl (by decide)

theorem closing_not_mem {lines : List String}
    (plain : ∀ line ∈ lines, Plain ([' ', ' ', ' ', ')'] :: names) line) : "   );" ∉ lines := by
  intro member
  have other := (plain _ member).other _ List.mem_cons_self
  rw [toList_spelled (s := "   );") rfl] at other
  revert other
  decide

theorem architecture_eq {m : Memory} (size : Size m) (image : Image m) :
    ∃ head tail : List String, (∀ line ∈ head ++ tail, Plain names line) ∧
      Listing.BlockRam.architecture size image =
        head ++ (List.range size.blocks).flatMap (Listing.BlockRam.block image) ++ tail := by
  have head := plain_head size
  have tail := plain_tail m
  simp only [List.forall_mem_cons, List.not_mem_nil, false_implies, implies_true, and_true] at head tail
  simp only [Listing.BlockRam.architecture]
  refine ⟨_, _, ?_, List.append_assoc _ _ _⟩
  split
  · simp only [List.forall_mem_append, List.forall_mem_cons, List.not_mem_nil, false_implies, implies_true,
      and_true, head, tail]
  · simp only [List.forall_mem_append, List.forall_mem_cons, List.not_mem_nil, false_implies, implies_true,
      and_true, head, tail]

end TwoPass.Reading.BlockRam
