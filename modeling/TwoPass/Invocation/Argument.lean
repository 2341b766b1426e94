import TwoPass.Listing.Format

/-! The single arguments of a command line. An option is spelled with its value in
the same argument (`-vFILE`, `-v=FILE`, `--vhdl=FILE`) or takes the argument behind
it. After `--` every argument is an input. -/
namespace TwoPass.Invocation

inductive ValueOption where
  | output (format : Listing.Format)
  | size (memory : Memory)
deriving DecidableEq

inductive Flag where
  | verbose
  | help
  | version
deriving DecidableEq, Repr

namespace ValueOption

def all : List ValueOption :=
  [.output .vhdl, .output .blockRam, .output .hexDump, .output .memoryMap,
    .size .program, .size .data]

def long : ValueOption → String
  | .output .vhdl => "vhdl"
  | .output .blockRam => "vhdl-ramb16"
  | .output .hexDump => "mem"
  | .output .memoryMap => "bmm"
  | .size .program => "program-size"
  | .size .data => "ram-size"

def short : ValueOption → Char
  | .output .vhdl => 'v'
  | .output .blockRam => 'R'
  | .output .hexDump => 'm'
  | .output .memoryMap => 'b'
  | .size .program => 'p'
  | .size .data => 'r'

def label (o : ValueOption) : String :=
  "--" ++ o.long ++
    match o with
    | .output _ => " <FILE>"
    | .size _ => " <SIZE>"

/-- The value that stands for a size where none is given. -/
def defaultSize : Memory → String
  | .program => "512"
  | .data => "1024"

def ofLong? (name : String) : Option ValueOption :=
  all.find? (·.long = name)

def ofShort? (letter : Char) : Option ValueOption :=
  all.find? (·.short = letter)

end ValueOption

namespace Flag

def all : List Flag := [.verbose, .help, .version]

def long : Flag → String
  | .verbose => "verbose"
  | .help => "help"
  | .version => "version"

def short : Flag → Option Char
  | .verbose => none
  | .help => some 'h'
  | .version => some 'V'

/-- How messages name the flag; dots mark the one that may be repeated. -/
def label : Flag → String
  | .verbose => "--verbose..."
  | .help => "--help"
  | .version => "--version"

end Flag

inductive Argument where
  | plain (text : String)
  /-- Everything behind it is plain. -/
  | separator
  | option (o : ValueOption) (value : Option String)
  | flag (f : Flag)
  /-- A flag spelled with a value, which none takes. -/
  | valuedFlag (f : Flag)
  | unknown (text : String)
deriving DecidableEq

namespace Argument

/-- The part before the first equals sign, and the part behind it if there is one. -/
def splitValue (text : List Char) : List Char × Option (List Char) :=
  match text.dropWhile (· ≠ '=') with
  | [] => (text, none)
  | _ :: value => (text.takeWhile (· ≠ '='), some value)

/-- An argument that starts with two dashes, without them. -/
def ofLong (text : List Char) : Argument :=
  let (name, value) := splitValue text
  let name := String.ofList name
  match ValueOption.ofLong? name with
  | some o => .option o (value.map String.ofList)
  | none =>
    match Flag.all.find? (·.long = name), value with
    | some f, none => .flag f
    | some f, some _ => .valuedFlag f
    | none, _ => .unknown ("--" ++ name)

/-- An argument that starts with one dash: the letter behind it and the rest, in
which an equals sign may stand before the value. -/
def ofShort (letter : Char) (rest : List Char) : Argument :=
  match ValueOption.ofShort? letter with
  | some o =>
    .option o <|
      match rest with
      | [] => none
      | '=' :: value => some (String.ofList value)
      | value => some (String.ofList value)
  | none =>
    match Flag.all.find? (·.short = some letter) with
    | some f => .flag f
    | none => .unknown (String.ofList ['-', letter])

/-- A single dash is an ordinary argument. -/
def ofString (text : String) : Argument :=
  match text.toList with
  | ['-', '-'] => .separator
  | '-' :: '-' :: rest => ofLong rest
  | '-' :: letter :: rest => ofShort letter rest
  | _ => .plain text

end Argument
end TwoPass.Invocation
