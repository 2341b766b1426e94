import TwoPass.Expression.Operator
import TwoPass.Numeral
import TwoPass.Storage.Size

/-! Everything that can go wrong with an assembly, each with the text a user sees.
Every fault ends the run. -/
namespace TwoPass

inductive FileFault where
  | notFound
  | notDirectory
  | isDirectory
  | noSpace
  | nameTooLong
  /-- The name holds the character that ends names. -/
  | nulInName
deriving DecidableEq, Repr

def FileFault.message : FileFault → String
  | .notFound => "No such file or directory (os error 2)"
  | .notDirectory => "Not a directory (os error 20)"
  | .isDirectory => "Is a directory (os error 21)"
  | .noSpace => "No space left on device (os error 28)"
  | .nameTooLong => "File name too long (os error 36)"
  | .nulInName => "file name contained an unexpected NUL byte"

inductive Fault where
  /-- Nothing can be placed behind the last cell of a memory. -/
  | memoryOverflow (memory : Memory) (capacity : Nat) (line : Line)
  /-- The next cell to place a word in already holds one. -/
  | collision (memory : Memory) (address : Address) (line : Line)
  | undefinedSymbol (name : String) (line : Line)
  | divisionByZero (operator : BinaryOperator) (line : Line)
  /-- The power is infinite or needs more than 32 bits. -/
  | exponentOverflow (base exponent : Value) (line : Line)
  /-- The recorded actions take more values from the stack than they put there. -/
  | stackUnderflow (line : Line)
  | invalidSize (memory : Memory) (requested : Nat)
  | outputFile (path : String) (cause : FileFault)
deriving DecidableEq

namespace Fault

private def atLine (line : Line) (text : String) : String :=
  "Line " ++ Numeral.decimal line ++ ": " ++ text

def message : Fault → String
  | .memoryOverflow memory capacity line =>
    atLine line s!"end of {memory.name} exceeded ({Numeral.decimal capacity} {memory.unit})"
  | .collision memory address line =>
    atLine line s!"{memory.name} address 0x{Numeral.hex 4 address.val} is already in use"
  | .undefinedSymbol name line => atLine line s!"undefined symbol: {name}"
  | .divisionByZero operator line => atLine line s!"`{operator.symbol}` by zero"
  | .exponentOverflow base exponent line =>
    atLine line
      s!"{Numeral.signed base.toInt} ** {Numeral.signed exponent.toInt} does not fit into a 32-bit value"
  | .stackUnderflow line => atLine line "evaluation stack underflow"
  | .invalidSize memory requested =>
    s!"Invalid {memory.name} capacity: {Numeral.decimal requested} {memory.unit}"
  | .outputFile path _ => s!"Could not write output file \"{path}\""

def code : Fault → String
  | .memoryOverflow .. => "jpu16asm::memory_overflow"
  | .collision .. => "jpu16asm::collision"
  | .undefinedSymbol .. => "jpu16asm::undefined_symbol"
  | .divisionByZero .. => "jpu16asm::division_by_zero"
  | .exponentOverflow .. => "jpu16asm::exponent_overflow"
  | .stackUnderflow .. => "jpu16asm::internal::stack_underflow"
  | .invalidSize .. => "jpu16asm::invalid_capacity"
  | .outputFile .. => "jpu16asm::output_file"

def help : Fault → Option String
  | .memoryOverflow memory _ _ =>
    s!"Select a larger {memory.name} capacity or reduce the amount of assembled {memory.unit}"
  | .collision .. =>
    "Every memory address can only receive one value; check for overlapping placements"
  | .undefinedSymbol .. =>
    "Any symbol used in an expression must be defined somewhere. Did you misspell the symbol's name?"
  | .stackUnderflow .. =>
    "The deferred actions for this line pop more values than they push. " ++
      "This is a bug in the assembler front end, not in your source code."
  | .invalidSize memory _ =>
    "Valid capacities are " ++ ", ".intercalate (memory.sizes.map Numeral.decimal)
  | .divisionByZero .. | .exponentOverflow .. | .outputFile .. => none

/-- The source line a fault was raised for. Sizes and files belong to none. -/
def line : Fault → Option Line
  | .memoryOverflow _ _ line | .collision _ _ line | .undefinedSymbol _ line
  | .divisionByZero _ line | .exponentOverflow _ _ line | .stackUnderflow line => some line
  | .invalidSize .. | .outputFile .. => none

/-- Whether the front end recorded an impossible sequence of actions, rather than
the source text being wrong. -/
def isInternal : Fault → Bool
  | .stackUnderflow _ => true
  | _ => false

end Fault

def Size.ofCount (m : Memory) (count : Nat) : Except Fault (Size m) :=
  match Size.ofCount? m count with
  | some size => .ok size
  | none => .error (.invalidSize m count)

/-- Program memory is checked first. -/
def Sizes.ofCounts (program data : Nat) : Except Fault Sizes := do
  let program ← Size.ofCount .program program
  let data ← Size.ofCount .data data
  return { program, data }

end TwoPass
