import TwoPass.Listing.Entity
import TwoPass.Proofs.Reading.Text

/-! The lines of a hardware description around the contents of its memories. A reader
of the contents passes over them. -/
namespace TwoPass.Reading

/-- A line without a break that begins in none of some ways. -/
structure Plain (leads : List (List Char)) (line : String) : Prop where
  whole : '\n' ∉ line.toList
  other : ∀ lead ∈ leads, ¬lead <+: line.toList

namespace Plain
variable {leads : List (List Char)}

theorem mono {few : List (List Char)} {line : String} (plain : Plain leads line)
    (subset : ∀ lead ∈ few, lead ∈ leads) : Plain few line :=
  ⟨plain.whole, fun lead member => plain.other lead (subset lead member)⟩

/-- Deciding this of the characters spares decoding the text. -/
theorem of {line : String} {chars : List Char} (spelled : line = String.ofList chars)
    (plain : '\n' ∉ chars ∧ ∀ lead ∈ leads, ¬lead <+: chars) : Plain leads line := by
  subst spelled
  constructor
  · simpa using plain.1
  · simpa using plain.2

/-- A line that differs from every lead early on can end in any way. -/
theorem append {first rest : String} {chars : List Char} (spelled : first = String.ofList chars)
    (plain : '\n' ∉ chars ∧ ∀ lead ∈ leads, ∃ p ∈ lead.zip chars, p.1 ≠ p.2)
    (whole : '\n' ∉ rest.toList) : Plain leads (first ++ rest) := by
  subst spelled
  constructor
  · simp [plain.1, whole]
  · intro lead member begins
    obtain ⟨p, paired, different⟩ := plain.2 lead member
    obtain ⟨i, bound, rfl⟩ := List.mem_iff_getElem.mp paired
    rw [String.toList_append, String.toList_ofList] at begins
    obtain ⟨tail, eq⟩ := begins
    rw [List.length_zip, Nat.lt_min] at bound
    have same := congrArg (·[i]?) eq
    simp only [List.getElem?_append_left bound.1, List.getElem?_append_left bound.2,
      List.getElem?_eq_getElem bound.1, List.getElem?_eq_getElem bound.2, Option.some.injEq] at same
    simp only [List.getElem_zip] at different
    exact different same

end Plain

/-- How the lines begin that announce the contents of a memory. -/
def announcements : List (List Char) := [
  [' ', ' ', ' ', 'M'],
  [' ', ' ', ' ', 's', 'i', 'g', 'n', 'a', 'l', ' ', 'M'],
  [' ', ' ', ' ', 'c', 'o', 'n', 's', 't', 'a', 'n', 't', ' ', 'M']]

theorem not_mem_decimal {c : Char} (other : digit? c = none) (n : Nat) :
    c ∉ (Numeral.decimal n).toList :=
  not_mem_of_number? (number?_decimal n) other

theorem not_mem_hex {c : Char} (other : digit? c = none) (width n : Nat) :
    c ∉ (Numeral.hex width n).toList :=
  not_mem_of_number? (number?_hex width n) other

theorem plain_sizePackage (sizes : Sizes) : ∀ line ∈ Listing.Entity.sizePackage sizes, Plain announcements line := by
  have ended : ∀ n, '\n' ∉ (Numeral.decimal n ++ ";").toList := by
    intro n
    simp [not_mem_decimal (c := '\n') rfl]
  simp only [Listing.Entity.sizePackage, List.forall_mem_cons, String.append_assoc]
  refine ⟨.of rfl (by decide), .of rfl (by decide), .of rfl (by decide), .of rfl (by decide),
    .append rfl (by decide) (ended _), .append rfl (by decide) (ended _),
    .of rfl (by decide), ?_⟩
  intro line member
  contradiction

section
variable {flavor : Listing.Entity.Flavor} (libraries : ∀ line ∈ flavor.libraries, Plain announcements line)
variable (initial : '\n' ∉ flavor.initial.toList)
include libraries initial

theorem plain_program : ∀ line ∈ Listing.Entity.program flavor, Plain announcements line := by
  have output : Plain announcements ("         DatoProg:  out STD_LOGIC_VECTOR (nBits_BusProg - 1 downto 0)" ++
      (flavor.initial ++ ");")) :=
    .append rfl (by decide) (by simp [initial])
  simp only [Listing.Entity.program, Listing.Entity.standardLibraries, List.forall_mem_append,
    List.forall_mem_cons, String.append_assoc, output, List.not_mem_nil, false_implies, implies_true,
    true_and, and_true]
  refine ⟨⟨?_, libraries⟩, ?_⟩
  · and_intros <;> exact .of rfl (by decide)
  · and_intros <;> exact .of rfl (by decide)

theorem plain_data : ∀ line ∈ Listing.Entity.data flavor, Plain announcements line := by
  have output : Plain announcements ("         DatoSal:   out STD_LOGIC_VECTOR (nBits_BusDatos-1 downto 0)" ++
      (flavor.initial ++ ");")) :=
    .append rfl (by decide) (by simp [initial])
  simp only [Listing.Entity.data, Listing.Entity.standardLibraries, List.forall_mem_append,
    List.forall_mem_cons, String.append_assoc, output, List.not_mem_nil, false_implies, implies_true,
    true_and, and_true]
  refine ⟨⟨?_, libraries⟩, ?_⟩
  · and_intros <;> exact .of rfl (by decide)
  · and_intros <;> exact .of rfl (by decide)

end
end TwoPass.Reading
