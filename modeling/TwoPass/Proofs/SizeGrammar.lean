import Mathlib.Data.List.TakeWhile
import TwoPass.Invocation.SizeText
import TwoPass.Proofs.Reading.Text

/-! The texts that give a size on a command line. Digits are read from the left, so the
first character that is no digit and the first digit that is too many compete, and the
one that comes first is reported. -/
namespace TwoPass.Invocation

/-- Decimal digits, and nothing else. -/
def AllDigits (text : List Char) : Prop :=
  ∀ c ∈ text, c.isDigit = true

/-- The number that digits denote, most significant first. -/
def decimalValue (digits : List Char) : Nat :=
  Nat.ofDigitChars 10 digits 0

/-- An optional plus sign and one or more digits, which denote `n`. -/
def Denotes (text : List Char) (n : Nat) : Prop :=
  ∃ digits, (text = digits ∨ text = '+' :: digits) ∧ digits ≠ [] ∧ AllDigits digits ∧
    decimalValue digits = n

/-- What is left of a text behind an optional plus sign. -/
def unsigned : List Char → List Char
  | '+' :: rest => rest
  | text => text

/-- A character that is no digit is met while the digits before it fit 64 bits. -/
def BadDigit (text : List Char) : Prop :=
  ∃ digits c, digits ++ [c] <+: text ∧ AllDigits digits ∧ c.isDigit = false ∧
    decimalValue digits ≤ 2 ^ 64 - 1

/-- Digits that need more than 64 bits are met before any other character. -/
def TooLarge (text : List Char) : Prop :=
  ∃ digits, digits <+: text ∧ AllDigits digits ∧ 2 ^ 64 - 1 < decimalValue digits

theorem allDigits_cons {c : Char} {text : List Char} :
    AllDigits (c :: text) ↔ c.isDigit = true ∧ AllDigits text :=
  List.forall_mem_cons

/-- Further digits never make a number smaller. -/
theorem le_ofDigitChars (digits : List Char) (n : Nat) : n ≤ Nat.ofDigitChars 10 digits n := by
  rw [Nat.ofDigitChars_eq_ofDigitChars_zero]
  have scaled : n ≤ 10 ^ digits.length * n := Nat.le_mul_of_pos_left n (Nat.pow_pos (by decide))
  omega

section
variable {n : Nat} {digits : List Char}

theorem readDigits_cons (n : Nat) (c : Char) (rest : List Char) :
    readDigits n (c :: rest) =
      if c.isDigit then
        if n * 10 + (c.toNat - '0'.toNat) < 2 ^ 64 then readDigits (n * 10 + (c.toNat - '0'.toNat)) rest
        else .error .tooLarge
      else .error .invalidDigit :=
  rfl

/-- Digits whose number fits are read, whatever stands behind them. -/
theorem readDigits_append (only : AllDigits digits) (fits : Nat.ofDigitChars 10 digits n < 2 ^ 64)
    (rest : List Char) :
    readDigits n (digits ++ rest) = readDigits (Nat.ofDigitChars 10 digits n) rest := by
  induction digits generalizing n with
  | nil => rfl
  | cons c digits ih =>
    obtain ⟨digit, only⟩ := allDigits_cons.mp only
    rw [Nat.ofDigitChars_cons, Nat.mul_comm] at fits ⊢
    have first : n * 10 + (c.toNat - '0'.toNat) < 2 ^ 64 :=
      Nat.lt_of_le_of_lt (le_ofDigitChars digits _) fits
    rw [List.cons_append, readDigits_cons, if_pos digit, if_pos first, ih only fits]

/-- Digits whose number does not fit are refused, whatever stands behind them. -/
theorem readDigits_of_tooLarge (small : n < 2 ^ 64) (only : AllDigits digits)
    (large : 2 ^ 64 ≤ Nat.ofDigitChars 10 digits n) (rest : List Char) :
    readDigits n (digits ++ rest) = .error .tooLarge := by
  induction digits generalizing n with
  | nil =>
    rw [Nat.ofDigitChars_nil] at large
    omega
  | cons c digits ih =>
    obtain ⟨digit, only⟩ := allDigits_cons.mp only
    rw [Nat.ofDigitChars_cons, Nat.mul_comm] at large
    rw [List.cons_append, readDigits_cons, if_pos digit]
    by_cases first : n * 10 + (c.toNat - '0'.toNat) < 2 ^ 64
    · rw [if_pos first, ih first only large]
    · rw [if_neg first]

end

section
variable {text : List Char}

theorem readDigits_of_allDigits (only : AllDigits text) (fits : decimalValue text ≤ 2 ^ 64 - 1) :
    readDigits 0 text = .ok (decimalValue text) := by
  have read := readDigits_append only (n := 0) (by rw [decimalValue] at fits; omega) []
  rwa [List.append_nil] at read

theorem readDigits_of_badDigit (bad : BadDigit text) : readDigits 0 text = .error .invalidDigit := by
  obtain ⟨digits, c, ⟨rest, rfl⟩, only, other, fits⟩ := bad
  rw [decimalValue] at fits
  rw [List.append_assoc, readDigits_append only (by omega), List.singleton_append, readDigits_cons, other]
  rfl

theorem readDigits_of_overflow (overflow : TooLarge text) : readDigits 0 text = .error .tooLarge := by
  obtain ⟨digits, ⟨rest, rfl⟩, only, large⟩ := overflow
  rw [decimalValue] at large
  exact readDigits_of_tooLarge (by decide) only (by omega) rest

/-- Every text is a number that fits, or has a first character that spoils it. -/
theorem digits_cases (text : List Char) :
    (AllDigits text ∧ decimalValue text ≤ 2 ^ 64 - 1) ∨ BadDigit text ∨ TooLarge text := by
  have only : AllDigits (text.takeWhile Char.isDigit) := fun c => List.mem_takeWhile_imp
  have split : text.takeWhile Char.isDigit ++ text.dropWhile Char.isDigit = text :=
    List.takeWhile_append_dropWhile
  by_cases large : 2 ^ 64 - 1 < decimalValue (text.takeWhile Char.isDigit)
  · exact .inr (.inr ⟨_, List.takeWhile_prefix _, only, large⟩)
  · rw [Nat.not_lt] at large
    cases rest : text.dropWhile Char.isDigit with
    | nil =>
      rw [rest, List.append_nil] at split
      rw [split] at only large
      exact .inl ⟨only, large⟩
    | cons c rest' =>
      have other : c.isDigit = false := by
        have head := List.head?_dropWhile_not Char.isDigit text
        rw [rest] at head
        simpa using head
      refine .inr (.inl ⟨_, c, ⟨rest', ?_⟩, only, other, large⟩)
      rw [List.append_assoc, List.singleton_append, ← rest, split]

theorem readDigits_eq_ok_iff {n : Nat} :
    readDigits 0 text = .ok n ↔ AllDigits text ∧ decimalValue text = n ∧ n ≤ 2 ^ 64 - 1 := by
  constructor
  · intro read
    obtain ⟨only, fits⟩ | bad | overflow := digits_cases text
    · cases (readDigits_of_allDigits only fits).symm.trans read
      exact ⟨only, rfl, fits⟩
    · cases (readDigits_of_badDigit bad).symm.trans read
    · cases (readDigits_of_overflow overflow).symm.trans read
  · rintro ⟨only, rfl, fits⟩
    exact readDigits_of_allDigits only fits

theorem readDigits_eq_error_iff {error : SizeError} :
    readDigits 0 text = .error error ↔
      error = .invalidDigit ∧ BadDigit text ∨ error = .tooLarge ∧ TooLarge text := by
  constructor
  · intro read
    obtain ⟨only, fits⟩ | bad | overflow := digits_cases text
    · cases (readDigits_of_allDigits only fits).symm.trans read
    · cases (readDigits_of_badDigit bad).symm.trans read
      exact .inl ⟨rfl, bad⟩
    · cases (readDigits_of_overflow overflow).symm.trans read
      exact .inr ⟨rfl, overflow⟩
  · rintro (⟨rfl, bad⟩ | ⟨rfl, overflow⟩)
    · exact readDigits_of_badDigit bad
    · exact readDigits_of_overflow overflow

end

/-- A text has a sign to leave out, or none. -/
theorem unsigned_cases (text : List Char) :
    text = '+' :: unsigned text ∨ unsigned text = text ∧ ∀ rest, text ≠ '+' :: rest := by
  unfold unsigned
  split
  · exact .inl rfl
  · rename_i other
    exact .inr ⟨rfl, other⟩

/-- A digit is not a sign, so the digits of a number are all that stands behind the sign. -/
theorem denotes_iff {text : List Char} {n : Nat} :
    Denotes text n ↔
      unsigned text ≠ [] ∧ AllDigits (unsigned text) ∧ decimalValue (unsigned text) = n := by
  constructor
  · rintro ⟨digits, rfl | rfl, filled, only, value⟩
    · obtain signed | ⟨bare, -⟩ := unsigned_cases text
      · rw [signed, allDigits_cons] at only
        exact absurd only.1 (by decide)
      · rw [bare]
        exact ⟨filled, only, value⟩
    · exact ⟨filled, only, value⟩
  · rintro ⟨filled, only, value⟩
    refine ⟨unsigned text, ?_, filled, only, value⟩
    obtain signed | ⟨bare, -⟩ := unsigned_cases text
    · exact .inr signed
    · exact .inl bare.symm

theorem readCount_eq {text : List Char} (filled : text ≠ []) :
    readCount text =
      if unsigned text = [] then .error .invalidDigit else readDigits 0 (unsigned text) := by
  obtain signed | ⟨bare, other⟩ := unsigned_cases text
  · rw [signed]
    cases unsigned text <;> rfl
  · rw [bare, if_neg filled]
    unfold readCount
    split
    · contradiction
    · exact absurd rfl (other [])
    · exact absurd rfl (other _)
    · rfl

theorem readCount_eq_ok_iff {text : List Char} {n : Nat} :
    readCount text = .ok n ↔ Denotes text n ∧ n ≤ 2 ^ 64 - 1 := by
  rw [denotes_iff]
  by_cases filled : text = []
  · subst filled
    simp [readCount, unsigned]
  · rw [readCount_eq filled]
    by_cases lone : unsigned text = []
    · simp [lone]
    · rw [if_neg lone, readDigits_eq_ok_iff, and_assoc, and_assoc]
      simp [lone]

theorem not_tooLarge_nil : ¬TooLarge [] := by
  rintro ⟨digits, front, -, large⟩
  rw [List.prefix_nil.mp front] at large
  contradiction

theorem readCount_eq_error_iff {text : List Char} {error : SizeError} :
    readCount text = .error error ↔
      error = .empty ∧ text = [] ∨
      error = .invalidDigit ∧ text ≠ [] ∧ (unsigned text = [] ∨ BadDigit (unsigned text)) ∨
      error = .tooLarge ∧ TooLarge (unsigned text) := by
  by_cases filled : text = []
  · subst filled
    simp [readCount, unsigned, not_tooLarge_nil, eq_comm]
  · rw [readCount_eq filled]
    by_cases lone : unsigned text = []
    · simp [lone, filled, not_tooLarge_nil, eq_comm]
    · rw [if_neg lone, readDigits_eq_error_iff]
      simp [lone, filled]

section
variable {m : Memory} {text : String}

theorem readSize_of_ok {n : Nat} (read : readCount text.toList = .ok n) :
    readSize m text =
      if legal : n ∈ m.sizes then .ok ⟨n, legal⟩ else .error (.illegal m n) := by
  by_cases legal : n ∈ m.sizes
  · simp [readSize, read, Size.ofCount?, legal, bind, Except.bind, pure, Except.pure]
  · simp [readSize, read, Size.ofCount?, legal, bind, Except.bind, throw, throwThe, MonadExceptOf.throw]

theorem readSize_of_error {error : SizeError} (failed : readCount text.toList = .error error) :
    readSize m text = .error error := by
  simp only [readSize, failed, bind, Except.bind]

theorem readSize_eq_ok_iff {size : Size m} :
    readSize m text = .ok size ↔ Denotes text.toList size.count := by
  have small : size.count ≤ 2 ^ 64 - 1 := Nat.le_trans size.count_le (by decide)
  have denotes : Denotes text.toList size.count ↔ readCount text.toList = .ok size.count := by
    rw [readCount_eq_ok_iff, and_iff_left small]
  rw [denotes]
  cases read : readCount text.toList with
  | error cause =>
    rw [readSize_of_error read]
    exact iff_of_false nofun nofun
  | ok n =>
    rw [readSize_of_ok read, Except.ok.injEq]
    constructor
    · intro accepted
      split at accepted
      · cases accepted
        rfl
      · contradiction
    · rintro rfl
      rw [dif_pos size.legal]

/-- A text denotes one size at most. -/
theorem Denotes.size_eq {first second : Size m} (one : Denotes text.toList first.count)
    (other : Denotes text.toList second.count) : first = second := by
  have read : readSize m text = .ok first := readSize_eq_ok_iff.mpr one
  rw [readSize_eq_ok_iff.mpr other] at read
  exact (Except.ok.inj read).symm

theorem readSize_eq_error_iff {error : SizeError} :
    readSize m text = .error error ↔
      readCount text.toList = .error error ∨
      ∃ n, error = .illegal m n ∧ Denotes text.toList n ∧ n ≤ 2 ^ 64 - 1 ∧ n ∉ m.sizes := by
  have refused : (∃ n, error = .illegal m n ∧ Denotes text.toList n ∧ n ≤ 2 ^ 64 - 1 ∧ n ∉ m.sizes) ↔
      ∃ n, error = .illegal m n ∧ readCount text.toList = .ok n ∧ n ∉ m.sizes := by
    simp only [readCount_eq_ok_iff, and_assoc]
  rw [refused]
  cases read : readCount text.toList with
  | error cause =>
    rw [readSize_of_error read]
    simp
  | ok n =>
    rw [readSize_of_ok read]
    constructor
    · intro failed
      split at failed
      · contradiction
      · rename_i illegal
        cases failed
        exact .inr ⟨n, rfl, rfl, illegal⟩
    · rintro (⟨⟨⟩⟩ | ⟨k, rfl, ⟨⟩, illegal⟩)
      rw [dif_neg illegal]

end

/-- What is reported for a number of words that a memory cannot have. -/
def illegalText (m : Memory) (n : Nat) : String :=
  "Invalid " ++ m.name ++ " capacity: " ++ Numeral.decimal n ++ " " ++ m.unit ++ ". " ++
    ("Valid capacities are " ++ ", ".intercalate (m.sizes.map Numeral.decimal))

theorem toList_illegalText (m : Memory) (n : Nat) :
    ∃ rest, (illegalText m n).toList = "Invalid ".toList ++ m.name.toList ++ rest := by
  unfold illegalText
  rw [String.toList_append, String.toList_append, String.toList_append, String.toList_append,
    String.toList_append, String.toList_append, String.toList_append, List.append_assoc,
    List.append_assoc, List.append_assoc, List.append_assoc, List.append_assoc]
  exact ⟨_, rfl⟩

theorem illegalText_inj {m k : Memory} {n l : Nat} (same : illegalText m n = illegalText k l) :
    m = k ∧ n = l := by
  have memory : m = k := by
    obtain ⟨rest, first⟩ := toList_illegalText m n
    obtain ⟨rest', second⟩ := toList_illegalText k l
    rw [same, second, List.append_assoc, List.append_assoc, List.append_cancel_left_eq] at first
    cases m <;> cases k <;> simp [Memory.name] at first ⊢
  subst memory
  unfold illegalText at same
  rw [String.append_left_inj, String.append_left_inj, String.append_left_inj, String.append_left_inj,
    String.append_right_inj] at same
  exact ⟨rfl, Reading.decimal_inj same⟩

namespace SizeError

/-- The letter that a message starts with. -/
def initial : SizeError → Char
  | .empty => 'c'
  | .invalidDigit => 'i'
  | .tooLarge => 'n'
  | .illegal _ _ => 'I'

theorem head?_message (error : SizeError) : error.message.toList.head? = some error.initial := by
  cases error with
  | empty | invalidDigit | tooLarge => rfl
  | illegal m n =>
    obtain ⟨rest, spelled⟩ := toList_illegalText m n
    have message : (illegal m n).message = illegalText m n := rfl
    rw [message, spelled]
    rfl

/-- The messages tell all errors apart. -/
theorem message_injective : Function.Injective message := by
  intro first second same
  have initials := congrArg (·.toList.head?) same
  simp only [head?_message, Option.some.injEq] at initials
  cases first with
  | illegal m n =>
    cases second with
    | illegal k l =>
      obtain ⟨rfl, rfl⟩ := illegalText_inj same
      rfl
    | _ => simp [initial] at initials
  | _ => cases second <;> simp [initial] at initials ⊢

end SizeError

/-- What a text is answered on a command line: a size, or a message. -/
def sizeAnswer (m : Memory) (text : String) : Except String (Size m) :=
  (readSize m text).mapError SizeError.message

section
variable {m : Memory} {text : String}

theorem sizeAnswer_eq_ok_iff {size : Size m} :
    sizeAnswer m text = .ok size ↔ Denotes text.toList size.count := by
  rw [← readSize_eq_ok_iff, sizeAnswer]
  cases readSize m text <;> simp [Except.mapError]

theorem sizeAnswer_eq_error_iff {message : String} :
    sizeAnswer m text = .error message ↔
      ∃ error : SizeError, error.message = message ∧ readSize m text = .error error := by
  rw [sizeAnswer]
  cases readSize m text <;> simp [Except.mapError]

theorem sizeAnswer_eq_message_iff (error : SizeError) :
    sizeAnswer m text = .error error.message ↔ readSize m text = .error error := by
  rw [sizeAnswer]
  cases readSize m text <;> simp [Except.mapError, SizeError.message_injective.eq_iff]

end

/-- A size is accepted exactly if it is written as an optional plus sign and digits for a
legal number of words. Any other text is answered by what is wrong with it: nothing is
there, a character is no digit, a number takes more than 64 bits, or a memory cannot have
that many words. An accepted size fills its address bus and its block RAMs. -/
theorem readSize_accepts_grammar (m : Memory) (text : String) :
    let answer := sizeAnswer m text
    let body := unsigned text.toList
    (∀ size : Size m, answer = .ok size ↔ Denotes text.toList size.count) ∧
    (answer = .error "cannot parse integer from empty string" ↔ text = "") ∧
    (answer = .error "invalid digit found in string" ↔
      text ≠ "" ∧ (body = [] ∨ BadDigit body)) ∧
    (answer = .error "number too large to fit in target type" ↔ TooLarge body) ∧
    (∀ n, answer = .error (illegalText m n) ↔
      Denotes text.toList n ∧ n ≤ 2 ^ 64 - 1 ∧ n ∉ m.sizes) ∧
    (∀ message, answer = .error message →
      message ∈ ["cannot parse integer from empty string", "invalid digit found in string",
        "number too large to fit in target type"] ∨ ∃ n, message = illegalText m n) ∧
    m.sizes.Pairwise (· < ·) ∧
    ∀ size : Size m, answer = .ok size →
      2 ^ size.addressBits = size.count ∧ size.count = size.blocks * m.blockWords := by
  intro answer body
  have empty : text.toList = [] ↔ text = "" := String.toList_eq_nil_iff
  refine ⟨fun size => sizeAnswer_eq_ok_iff, ?_, ?_, ?_, ?_, ?_, ?_, ?_⟩
  · refine (sizeAnswer_eq_message_iff .empty).trans ?_
    rw [readSize_eq_error_iff, readCount_eq_error_iff]
    simp [empty]
  · refine (sizeAnswer_eq_message_iff .invalidDigit).trans ?_
    rw [readSize_eq_error_iff, readCount_eq_error_iff]
    simp [empty, body]
  · refine (sizeAnswer_eq_message_iff .tooLarge).trans ?_
    rw [readSize_eq_error_iff, readCount_eq_error_iff]
    simp [body]
  · intro n
    refine (sizeAnswer_eq_message_iff (.illegal m n)).trans ?_
    rw [readSize_eq_error_iff, readCount_eq_error_iff]
    simp
  · intro message refused
    obtain ⟨error, rfl, failed⟩ := sizeAnswer_eq_error_iff.mp refused
    rw [readSize_eq_error_iff, readCount_eq_error_iff] at failed
    obtain (⟨rfl, -⟩ | ⟨rfl, -⟩ | ⟨rfl, -⟩) | ⟨n, rfl, -⟩ := failed
    · exact .inl List.mem_cons_self
    · exact .inl (List.mem_cons_of_mem _ List.mem_cons_self)
    · exact .inl (List.mem_cons_of_mem _ (List.mem_cons_of_mem _ List.mem_cons_self))
    · exact .inr ⟨n, rfl⟩
  · cases m <;> decide
  · intro size accepted
    constructor
    · rw [← Nat.one_shiftLeft, size.shiftLeft_addressBits]
    · exact size.blocks_mul_blockWords.symm

-- 2 ^ 64 + 512 does not pass for 512
example : readSize .program "18446744073709552128" = .error .tooLarge := by decide

end TwoPass.Invocation
