import TwoPass.Proofs.Reading.Vhdl

/-! The layout of a behavioural description and what it gives to its memories. Nothing
outside the two aggregates announces contents, so reading them back gives exactly the
used cells. -/
namespace TwoPass.Reading.Vhdl

theorem whole_wordText (m : Memory) (c : Cell) : '\n' ∉ (wordText m c).toList := by
  have binary := not_mem_binary (c := '\n') rfl
  have mark : '\n' ∉ "_".toList := not_mem_spelled rfl (by decide)
  have quote : '\n' ∉ "\"".toList := not_mem_spelled rfl (by decide)
  cases m with
  | program =>
    have letter : '\n' ∉ "B\"".toList := not_mem_spelled rfl (by decide)
    have fields := not_mem_append (not_mem_append (not_mem_append (not_mem_append
      (binary 6 (c.upper.toNat / 16 % 64)) mark) (binary 4 (c.upper.toNat % 16))) mark)
      (binary 16 c.literal.toNat)
    exact not_mem_append (not_mem_append letter fields) quote
  | data =>
    have letter : '\n' ∉ "X\"".toList := not_mem_spelled rfl (by decide)
    exact not_mem_append (not_mem_append letter (not_mem_hex rfl 4 c.value)) quote

theorem mem_aggregate {m : Memory} {image : Image m} {line : String}
    (member : line ∈ Listing.Vhdl.aggregate (wordText m) image) :
    ∃ rest : String, line = "      " ++ rest ∧ '\n' ∉ rest.toList := by
  have arrow : '\n' ∉ " => ".toList := not_mem_spelled rfl (by decide)
  rcases List.mem_append.mp member with entries | last
  · obtain ⟨p, -, rfl⟩ := List.mem_map.mp entries
    refine ⟨Numeral.decimal p.1 ++ " => " ++ wordText m p.2 ++ ",", ?_, ?_⟩
    · simp only [Listing.Vhdl.entry, String.append_assoc]
    · have comma : '\n' ∉ ",".toList := not_mem_spelled rfl (by decide)
      exact not_mem_append (not_mem_append (not_mem_append (not_mem_decimal rfl p.1) arrow)
        (whole_wordText m p.2)) comma
  · obtain rfl := List.mem_singleton.mp last
    refine ⟨"others" ++ " => " ++ wordText m (.ofWord 0), ?_, ?_⟩
    · simp only [Listing.Vhdl.entry, String.append_assoc]
    · have others : '\n' ∉ "others".toList := not_mem_spelled rfl (by decide)
      exact not_mem_append (not_mem_append others arrow) (whole_wordText m (.ofWord 0))

theorem plain_aggregate {m : Memory} {image : Image m} :
    ∀ line ∈ Listing.Vhdl.aggregate (wordText m) image, Plain announcements line := by
  intro line member
  obtain ⟨rest, rfl, whole⟩ := mem_aggregate member
  exact .append rfl (by decide) whole

theorem closing_not_mem {m : Memory} {image : Image m} :
    "   );" ∉ Listing.Vhdl.aggregate (wordText m) image := by
  intro member
  obtain ⟨rest, same, -⟩ := mem_aggregate member
  have chars := congrArg String.toList same
  rw [String.toList_append, toList_spelled (s := "      ") rfl, toList_spelled (s := "   );") rfl] at chars
  simp at chars

theorem ne_opening {line : String} (plain : Plain announcements line) (m : Memory) : line ≠ opening m := by
  rintro rfl
  cases m with
  | program =>
    have named := plain.other
    simp only [opening, toList_spelled (s := "   constant MemoriaProg: PROG_DATA := (") rfl] at named
    revert named
    decide
  | data =>
    have named := plain.other
    simp only [opening, toList_spelled (s := "   signal MemoriaRam: RAM_DATA := (") rfl] at named
    revert named
    decide

theorem plain_behavioral :
    (∀ line ∈ Listing.Entity.program Listing.Entity.behavioral, Plain announcements line) ∧
      ∀ line ∈ Listing.Entity.data Listing.Entity.behavioral, Plain announcements line := by
  have libraries : ∀ line ∈ Listing.Entity.behavioral.libraries, Plain announcements line := by
    intro line member
    contradiction
  have initial : '\n' ∉ Listing.Entity.behavioral.initial.toList := by
    rw [Listing.Entity.behavioral, toList_spelled (s := " := (others => '0')") rfl]
    decide
  exact ⟨plain_program libraries initial, plain_data libraries initial⟩

/-- Both aggregates stand between their opening line and a closing one, and nothing else
in the description announces contents. -/
theorem lines_eq (images : Images) :
    ∃ first second third : List String, (∀ line ∈ first ++ second ++ third, Plain announcements line) ∧
      Listing.Vhdl.lines images =
        first ++ opening .program :: (Listing.Vhdl.aggregate (wordText .program) images.program ++
          "   );" :: (second ++ opening .data ::
            (Listing.Vhdl.aggregate (wordText .data) images.data ++ "   );" :: third))) := by
  refine ⟨Listing.Entity.sizePackage images.sizes ++ Listing.Entity.program Listing.Entity.behavioral ++
      Listing.Vhdl.programDeclaration.take 3,
    Listing.Vhdl.programBody.drop 1 ++ Listing.Entity.data Listing.Entity.behavioral ++
      Listing.Vhdl.dataDeclaration.take 3,
    Listing.Vhdl.dataBody.drop 1, ?_, ?_⟩
  · simp only [List.forall_mem_append, Listing.Vhdl.programDeclaration, Listing.Vhdl.programBody,
      Listing.Vhdl.dataDeclaration, Listing.Vhdl.dataBody, List.take_succ_cons, List.take_zero,
      List.drop_succ_cons, List.drop_zero, List.forall_mem_cons, List.not_mem_nil, false_implies,
      implies_true, and_true]
    refine ⟨⟨⟨⟨plain_sizePackage images.sizes, plain_behavioral.1⟩, ?_⟩, ⟨?_, plain_behavioral.2⟩, ?_⟩, ?_⟩
    all_goals and_intros <;> exact .of rfl (by decide)
  · simp only [Listing.Vhdl.lines, Listing.Vhdl.programDeclaration, Listing.Vhdl.programBody,
      Listing.Vhdl.dataDeclaration, Listing.Vhdl.dataBody, opening, wordText, List.append_assoc,
      List.take_succ_cons, List.take_zero, List.drop_succ_cons, List.drop_zero, List.cons_append,
      List.nil_append]

theorem textLines_render (images : Images) :
    textLines (Listing.Format.vhdl.render images) = Listing.Vhdl.lines images := by
  obtain ⟨first, second, third, plain, eq⟩ := lines_eq images
  have named : ∀ m, '\n' ∉ (opening m).toList := by
    intro m
    cases m with
    | program => exact not_mem_spelled rfl (by decide)
    | data => exact not_mem_spelled rfl (by decide)
  have closing : '\n' ∉ "   );".toList := not_mem_spelled rfl (by decide)
  apply textLines_intercalate
  · rw [eq]
    simp
  · rw [eq]
    simp only [List.forall_mem_append, List.forall_mem_cons] at plain ⊢
    obtain ⟨⟨before, middle⟩, after⟩ := plain
    exact ⟨fun line member => (before line member).whole, named .program,
      fun line member => (plain_aggregate line member).whole, closing,
      fun line member => (middle line member).whole, named .data,
      fun line member => (plain_aggregate line member).whole, closing,
      fun line member => (after line member).whole⟩

/-- The aggregate of a memory follows the only line that opens it. -/
theorem lines_opening (images : Images) (m : Memory) :
    ∃ before after : List String, (∀ line ∈ before, decide (line = opening m) = false) ∧
      Listing.Vhdl.lines images = before ++ opening m ::
        (Listing.Vhdl.aggregate (wordText m) (images.image m) ++ "   );" :: after) := by
  obtain ⟨first, second, third, plain, eq⟩ := lines_eq images
  simp only [List.forall_mem_append] at plain
  obtain ⟨⟨before, middle⟩, -⟩ := plain
  have unopened : ∀ lines : List String, (∀ line ∈ lines, Plain announcements line) →
      ∀ line ∈ lines, decide (line = opening m) = false :=
    fun lines plain line member => decide_eq_false (ne_opening (plain line member) m)
  cases m with
  | program => exact ⟨first, _, unopened _ before, eq⟩
  | data =>
    have different : opening .program ≠ opening .data := by decide
    have closing : Plain announcements "   );" := .of rfl (by decide)
    refine ⟨first ++ opening .program :: (Listing.Vhdl.aggregate (wordText .program) images.program ++
      "   );" :: second), third, ?_, ?_⟩
    · simp only [List.forall_mem_append, List.forall_mem_cons]
      exact ⟨unopened _ before, decide_eq_false different, unopened _ plain_aggregate,
        decide_eq_false (ne_opening closing .data), unopened _ middle⟩
    · rw [eq]
      simp only [List.append_assoc, List.cons_append, Images.image]

theorem between_lines (images : Images) (m : Memory) :
    between (· = opening m) "   );" (Listing.Vhdl.lines images) =
      Listing.Vhdl.aggregate (wordText m) (images.image m) := by
  obtain ⟨before, after, unopened, eq⟩ := lines_opening images m
  rw [eq]
  exact between_eq unopened (decide_eq_true rfl) closing_not_mem after

/-- The last line of an aggregate, for all addresses that it does not name. -/
def others : Memory → String
  | .program => "      others => B\"000000_0000_0000000000000000\""
  | .data => "      others => X\"0000\""

/-- The lines of an aggregate that name an address. -/
def entries (m : Memory) (text : String) : List String :=
  between (· = opening m) (others m) (textLines text)

theorem entry_others (m : Memory) : Listing.Vhdl.entry "others" (wordText m (.ofWord 0)) = others m := by
  cases m <;> decide

/-- The used cells of a memory stand between its opening line and the line of the others. -/
theorem lines_entries (images : Images) (m : Memory) :
    ∃ before after : List String, (∀ line ∈ before, decide (line = opening m) = false) ∧
      Listing.Vhdl.lines images = before ++ opening m :: (((images.image m).usedCells.map fun p =>
        Listing.Vhdl.entry (Numeral.decimal p.1) (wordText m p.2) ++ ",") ++ others m :: after) := by
  obtain ⟨before, after, unopened, eq⟩ := lines_opening images m
  refine ⟨before, "   );" :: after, unopened, ?_⟩
  rw [eq, Listing.Vhdl.aggregate, entry_others]
  simp only [List.append_assoc, List.cons_append, List.nil_append]

/-- The aggregate of a memory names its used cells, one to a line. -/
theorem entries_render {images : Images} (sound : images.Sound) (m : Memory) :
    entries m (Listing.Format.vhdl.render images) = (images.image m).usedCells.map fun p =>
      Listing.Vhdl.entry (Numeral.decimal p.1) (wordText m p.2) ++ "," := by
  obtain ⟨before, after, unopened, eq⟩ := lines_entries images m
  have unclosed : others m ∉ (images.image m).usedCells.map fun p =>
      Listing.Vhdl.entry (Numeral.decimal p.1) (wordText m p.2) ++ "," := by
    intro member
    obtain ⟨p, listed, same⟩ := List.mem_map.mp member
    have fits := value_lt_of_mem_usedCells (fun a => (sound.formed_cellAt m a).value_lt) listed
    -- An entry is read as the word of an address, which the last line is not.
    have read := element?_entry m fits p.1
    rw [same, ← entry_others, element?_others] at read
    simp at read
  rw [entries, textLines_render, eq]
  exact between_eq unopened (decide_eq_true rfl) unclosed _

/-- The aggregates of a description list the used cells, and zero for all others. -/
theorem aggregate_render {images : Images} (sound : images.Sound) (m : Memory) :
    aggregate m (Listing.Format.vhdl.render images) =
      (images.image m).usedCells.map (fun p => (some p.1, p.2.value)) ++ [(none, 0)] := by
  rw [aggregate, textLines_render, between_lines]
  exact filterMap_element? fun a => (sound.formed_cellAt m a).value_lt

theorem lookup_used {m : Memory} (image : Image m) (choice : Option Nat) (addresses : List Nat) :
    ((addresses.filterMap fun a => if (image.cellAt a).used then some (a, image.cellAt a) else none).map
      fun p => (some p.1, p.2.value)).lookup choice =
      choice.bind fun a =>
        if a ∈ addresses ∧ (image.cellAt a).used then some (image.cellAt a).value else none := by
  induction addresses with
  | nil => cases choice <;> simp
  | cons b addresses ih =>
    cases used : (image.cellAt b).used with
    | false =>
      simp only [List.filterMap_cons, used, Bool.false_eq_true, if_false, ih]
      cases choice with
      | none => rfl
      | some a =>
        have unlisted : a = b → (image.cellAt a).used = false := fun same => same ▸ used
        grind
    | true =>
      simp only [List.filterMap_cons, used, if_true, List.map_cons, List.lookup_cons, ih]
      cases choice with
      | none => rfl
      | some a =>
        by_cases same : a = b
        · subst same
          simp [used]
        · have other : (a == b) = false := by simpa using same
          simp [same, other]

theorem lookup_usedCells {m : Memory} (image : Image m) (choice : Option Nat) :
    (image.usedCells.map fun p => (some p.1, p.2.value)).lookup choice =
      choice.bind fun a =>
        if a < image.capacity ∧ (image.cellAt a).used then some (image.cellAt a).value else none := by
  have listed := lookup_used image choice (List.range image.capacity)
  simp only [List.mem_range] at listed
  exact listed

/-- A word that behavioural VHDL gives to an address is that of a used cell, or zero. -/
theorem word?_render {images : Images} (sound : images.Sound) (m : Memory) {a : Nat}
    (below : a < (images.image m).capacity) :
    word? m (Listing.Format.vhdl.render images) a =
      some (if ((images.image m).cellAt a).used then ((images.image m).cellAt a).value else 0) := by
  rw [word?, aggregate_render sound, List.lookup_append, List.lookup_append, lookup_usedCells,
    lookup_usedCells]
  have unlisted : [(none, 0)].lookup (some a) = (none : Option Nat) := rfl
  have others : [(none, 0)].lookup (none : Option Nat) = some 0 := rfl
  cases used : ((images.image m).cellAt a).used <;> simp [below, used, unlisted, others]

end TwoPass.Reading.Vhdl
