import TwoPass.Fault

/-! Reading the size of a memory from a command line: an optional plus sign and
decimal digits, leading zeros allowed, for one of the legal numbers of words. -/
namespace TwoPass.Invocation

inductive SizeError where
  | empty
  | invalidDigit
  /-- The digits read so far need more than 64 bits. -/
  | tooLarge
  | illegal (memory : Memory) (count : Nat)
deriving DecidableEq

def SizeError.message : SizeError → String
  | .empty => "cannot parse integer from empty string"
  | .invalidDigit => "invalid digit found in string"
  | .tooLarge => "number too large to fit in target type"
  | .illegal memory count =>
    let fault := Fault.invalidSize memory count
    fault.message ++ ". " ++ fault.help.getD ""

/-- Continues a number with further digits. The first character that spoils it
decides what is wrong. -/
def readDigits : Nat → List Char → Except SizeError Nat
  | n, [] => .ok n
  | n, c :: rest =>
    if c.isDigit then
      let n := n * 10 + (c.toNat - '0'.toNat)
      if n < 2 ^ 64 then readDigits n rest else .error .tooLarge
    else .error .invalidDigit

def readCount : List Char → Except SizeError Nat
  | [] => .error .empty
  | ['+'] => .error .invalidDigit
  | '+' :: rest => readDigits 0 rest
  | text => readDigits 0 text

def readSize (m : Memory) (text : String) : Except SizeError (Size m) := do
  let count ← readCount text.toList
  match Size.ofCount? m count with
  | some size => return size
  | none => throw (.illegal m count)

end TwoPass.Invocation
