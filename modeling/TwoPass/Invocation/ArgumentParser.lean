import TwoPass.Invocation.Configuration

/-! What the program expects of a library that reads its command line. The program only
declares its options: their names, which of them take a value, how a value is read and
what stands for one that is missing. The rules below say how such a library goes through
the arguments, and nothing else about it is known. -/
namespace TwoPass.Invocation

/-- An argument that is not taken for an option. A dash alone is not one. -/
def IsPlain (text : String) : Prop :=
  text.toList.head? ≠ some '-' ∨ text = "-"

/-- What a value makes of a draft in which its option is not set. A path is any text but the
empty one, and sizes are read as the program reads them. -/
inductive Draft.Sets (d : Draft) : ValueOption → String → Draft → Prop
  | output {f : Listing.Format} {path : String} (fresh : d.output f = none) (filled : path ≠ "") :
      Sets d (.output f) path { d with output := fun g => if g = f then some path else d.output g }
  | size {m : Memory} {text : String} {size : Size m} (fresh : d.size m = none)
      (accepted : readSize m text = .ok size) :
      Sets d (.size m) text
        { d with size := fun k => if same : m = k then some (same ▸ size) else d.size k }

/-- A library for the declared options; its own errors are of no concern. -/
structure ArgumentParser (ε : Type) where
  /-- That arguments are accepted as far as they go, and what they were matched with. -/
  Matches : List String → Draft → Prop
  parse : List String → Except ε Configuration

namespace ArgumentParser
variable {ε : Type}

/-- Where further arguments lead, as long as no separator stands before them. -/
def Continues (parser : ArgumentParser ε) (d : Draft) (written : List String) (next : Draft) : Prop :=
  ∀ arguments, parser.Matches arguments d → "--" ∉ arguments → parser.Matches (arguments ++ written) next

/-- The rules of command lines. -/
structure LeftToRight (parser : ArgumentParser ε) : Prop where
  start : parser.Matches [] {}
  /-- `--name=value`: the first equals sign ends the name. -/
  longEquals {o : ValueOption} {name value : String} {d next : Draft}
    (named : ValueOption.ofLong? name = some o) (ends : '=' ∉ name.toList) (sets : d.Sets o value next) :
    parser.Continues d ["--" ++ name ++ "=" ++ value] next
  /-- `--name value`: a value of its own must not look like an option. -/
  longApart {o : ValueOption} {name value : String} {d next : Draft}
    (named : ValueOption.ofLong? name = some o) (ends : '=' ∉ name.toList) (isPlain : IsPlain value)
    (sets : d.Sets o value next) : parser.Continues d ["--" ++ name, value] next
  /-- `-n=value`. -/
  shortEquals {o : ValueOption} {letter : Char} {value : String} {d next : Draft}
    (named : ValueOption.ofShort? letter = some o) (sets : d.Sets o value next) :
    parser.Continues d ["-" ++ String.singleton letter ++ "=" ++ value] next
  /-- `-nvalue`. -/
  shortJoined {o : ValueOption} {letter : Char} {value : String} {d next : Draft}
    (named : ValueOption.ofShort? letter = some o) (filled : value ≠ "")
    (noEquals : value.toList.head? ≠ some '=') (noDash : value.toList.head? ≠ some '-')
    (sets : d.Sets o value next) : parser.Continues d ["-" ++ String.singleton letter ++ value] next
  /-- `-n value`: as with the long name. -/
  shortApart {o : ValueOption} {letter : Char} {value : String} {d next : Draft}
    (named : ValueOption.ofShort? letter = some o) (isPlain : IsPlain value) (sets : d.Sets o value next) :
    parser.Continues d ["-" ++ String.singleton letter, value] next
  /-- Every occurrence of the flag counts, up to the largest number of 8 bits. -/
  counted (d : Draft) :
    parser.Continues d ["--" ++ Flag.verbose.long] { d with verbosity := min (d.verbosity + 1) 255 }
  /-- An argument that is neither an option nor a value is the input. -/
  positional {path : String} {d : Draft} (isPlain : IsPlain path) (fresh : d.input = none)
    (filled : path ≠ "") : parser.Continues d [path] { d with input := some path }
  separator (d : Draft) : parser.Continues d ["--"] d
  /-- Behind a separator an argument is the input whatever it looks like. -/
  separated {arguments : List String} {path : String} {d : Draft} (before : parser.Matches arguments d)
    (behind : "--" ∈ arguments) (fresh : d.input = none) (filled : path ≠ "") :
    parser.Matches (arguments ++ [path]) { d with input := some path }
  /-- The input is all that is required; a size that is missing has its default. -/
  result {arguments : List String} {input : String} {d : Draft} {program : Size .program}
    {data : Size .data} (whole : parser.Matches arguments d) (given : d.input = some input)
    (programSize : d.sizeOf .program = .ok program) (dataSize : d.sizeOf .data = .ok data) :
    parser.parse arguments =
      .ok { input, output := d.output, sizes := { program, data }, verbosity := d.verbosity }

end ArgumentParser
end TwoPass.Invocation
