import Mathlib.Algebra.Group.Nat.Defs
import TwoPass.Numeral

/-! Reading numbers back. Digits of every width and base are read as the number they
were written for, so no other character can stand among them. -/
namespace TwoPass.Reading

/-- The value of a digit; letters stand for hexadecimal digits in upper case. -/
def digit? (c : Char) : Option Nat :=
  if '0' ≤ c ∧ c ≤ '9' then some (c.toNat - '0'.toNat)
  else if 'A' ≤ c ∧ c ≤ 'F' then some (c.toNat - 'A'.toNat + 10)
  else none

/-- Reads the digits that follow a number already read. -/
def numberFrom? (base : Nat) : Nat → List Char → Option Nat
  | n, [] => some n
  | n, c :: rest =>
    (digit? c).bind fun d => if d < base then numberFrom? base (n * base + d) rest else none

/-- Reads a number of at least one digit, most significant first. -/
def number? (base : Nat) (digits : List Char) : Option Nat :=
  if digits = [] then none else numberFrom? base 0 digits

theorem numberFrom?_append (base n : Nat) (first second : List Char) :
    numberFrom? base n (first ++ second) =
      (numberFrom? base n first).bind fun k => numberFrom? base k second := by
  induction first generalizing n with
  | nil => rfl
  | cons c first ih =>
    simp only [List.cons_append, numberFrom?]
    cases digit? c with
    | none => rfl
    | some d =>
      simp only [Option.bind_some]
      split
      · exact ih (n * base + d)
      · rfl

theorem digit?_of_numberFrom? {base n k : Nat} {digits : List Char} {c : Char}
    (read : numberFrom? base n digits = some k) (member : c ∈ digits) : digit? c ≠ none := by
  induction digits generalizing n with
  | nil => simp at member
  | cons d digits ih =>
    intro unread
    cases value : digit? d with
    | none => simp [numberFrom?, value] at read
    | some v =>
      simp only [numberFrom?, value, Option.bind_some] at read
      split at read
      · rcases List.mem_cons.mp member with rfl | later
        · simp [value] at unread
        · exact ih read later unread
      · contradiction

/-- No character other than a digit is part of a number. -/
theorem not_mem_of_number? {base k : Nat} {digits : List Char} (read : number? base digits = some k)
    {c : Char} (other : digit? c = none) : c ∉ digits := by
  intro member
  unfold number? at read
  split at read
  · contradiction
  · exact digit?_of_numberFrom? read member other

section
variable {base : Nat} (shape : Char → Char)

theorem numberFrom?_toDigits (many : 1 < base)
    (reads : ∀ d < base, digit? (shape d.digitChar) = some d) (k n : Nat) :
    numberFrom? base k ((Nat.toDigits base n).map shape) =
      some (k * base ^ (Nat.toDigits base n).length + n) := by
  induction n using Nat.strongRecOn generalizing k with
  | _ n ih =>
    rw [Nat.toDigits_eq_if many]
    split
    · rename_i small
      simp [numberFrom?, reads n small, small]
    · rename_i large
      have shorter : n / base < n := Nat.div_lt_self (by omega) many
      have last := Nat.mod_lt n (Nat.lt_of_succ_lt many)
      rw [List.map_append, numberFrom?_append, ih (n / base) shorter]
      simp only [Option.bind_some, List.map_cons, List.map_nil, numberFrom?, reads _ last, if_pos last,
        List.length_append, List.length_singleton, Option.some.injEq]
      calc (k * base ^ (Nat.toDigits base (n / base)).length + n / base) * base + n % base
          = k * base ^ (Nat.toDigits base (n / base)).length * base + (base * (n / base) + n % base) := by
            rw [Nat.add_mul, Nat.mul_comm (n / base), Nat.add_assoc]
        _ = k * base ^ ((Nat.toDigits base (n / base)).length + 1) + n := by
            rw [Nat.div_add_mod, Nat.pow_succ, Nat.mul_assoc]

theorem numberFrom?_zeros (many : 1 < base) (zero : digit? (shape '0') = some 0) (k count : Nat) :
    numberFrom? base k ((List.replicate count '0').map shape) = some (k * base ^ count) := by
  induction count generalizing k with
  | zero => simp [numberFrom?]
  | succ count ih =>
    have positive : 0 < base := Nat.lt_of_succ_lt many
    simp only [List.replicate_succ, List.map_cons, numberFrom?, zero, Option.bind_some, if_pos positive,
      Nat.add_zero, ih, Option.some.injEq]
    rw [Nat.pow_succ, Nat.mul_assoc, Nat.mul_comm base]

/-- Digits that are padded on the left have the value of the number after what was read
before them. -/
theorem numberFrom?_digits (many : 1 < base)
    (reads : ∀ d < base, digit? (shape d.digitChar) = some d) (k width n : Nat) :
    numberFrom? base k ((Numeral.digits base width n).map shape) =
      some (k * base ^ (Numeral.digits base width n).length + n) := by
  have zero : digit? (shape '0') = some 0 := reads 0 (Nat.lt_of_succ_lt many)
  simp only [Numeral.digits, List.leftpad, List.map_append]
  rw [numberFrom?_append, numberFrom?_zeros shape many zero, Option.bind_some,
    numberFrom?_toDigits shape many reads, List.length_append, List.length_replicate, Nat.pow_add,
    Nat.mul_assoc]

end

/-- A number that fits its field fills it exactly. -/
theorem length_digits {base width n : Nat} (many : 1 < base) (wide : 0 < width)
    (fits : n < base ^ width) : (Numeral.digits base width n).length = width := by
  have short := (Nat.length_toDigits_le_iff many wide).mpr fits
  simp only [Numeral.digits, List.leftpad, List.length_append, List.length_replicate]
  omega

theorem digits_ne_nil (base width n : Nat) : Numeral.digits base width n ≠ [] := by
  simp [Numeral.digits, List.leftpad, Nat.toDigits_ne_nil]

theorem digit?_upper : ∀ d < 16, digit? d.digitChar.toUpper = some d := by decide

theorem digit?_digitChar : ∀ d < 10, digit? d.digitChar = some d := by decide

theorem number?_hex (width n : Nat) : number? 16 (Numeral.hex width n).toList = some n := by
  rw [Numeral.hex, String.toList_ofList, number?, if_neg (by simpa using digits_ne_nil 16 width n),
    numberFrom?_digits Char.toUpper (by decide) digit?_upper, Nat.zero_mul, Nat.zero_add]

/-- A field of hexadecimal digits, letters in upper case, of an exact width. -/
def HexField (width : Nat) (digits : List Char) : Prop :=
  digits.length = width ∧ ∀ c ∈ digits, (digit? c).isSome

theorem hexField_hex {width n : Nat} (wide : 0 < width) (fits : n < 16 ^ width) :
    HexField width (Numeral.hex width n).toList := by
  constructor
  · rw [Numeral.hex, String.toList_ofList, List.length_map]
    exact length_digits (by decide) wide fits
  · intro c member
    have other := mt (not_mem_of_number? (number?_hex width n)) (not_not_intro member)
    exact Option.isSome_iff_ne_none.mpr other

theorem hex_inj {width m n : Nat} (same : Numeral.hex width m = Numeral.hex width n) : m = n := by
  have read := number?_hex width m
  rw [same, number?_hex] at read
  exact (Option.some.inj read).symm

theorem number?_decimal (n : Nat) : number? 10 (Numeral.decimal n).toList = some n := by
  have read := numberFrom?_toDigits id (by decide) digit?_digitChar 0 n
  rw [List.map_id] at read
  rw [Numeral.decimal, String.toList_ofList, number?, if_neg Nat.toDigits_ne_nil, read, Nat.zero_mul,
    Nat.zero_add]

theorem decimal_inj {m n : Nat} (same : Numeral.decimal m = Numeral.decimal n) : m = n := by
  have read := number?_decimal m
  rw [same, number?_decimal] at read
  exact (Option.some.inj read).symm

end TwoPass.Reading
