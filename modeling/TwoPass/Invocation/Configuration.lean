import TwoPass.Invocation.Argument
import TwoPass.Invocation.SizeText
import TwoPass.Journal.Event

/-! What a command line asks for, and a reader of command lines. Arguments are read from
left to right. The input and a value in an argument of its own are looked at once the
next argument is known to have a place, so an argument without one is reported before
them. -/
namespace TwoPass.Invocation

structure Configuration where
  input : String
  output : Listing.Format → Option String
  sizes : Sizes
  /-- How often more detail was asked for, up to 255. -/
  verbosity : Nat

namespace Configuration

/-- The files to write, in the order in which they are written. -/
def outputs (c : Configuration) : List (Listing.Format × String) :=
  [.vhdl, .blockRam, .hexDump, .memoryMap].filterMap fun f =>
    (c.output f).map fun path => (f, path)

def level (c : Configuration) : Level :=
  match c.verbosity with
  | 0 => .warn
  | 1 => .info
  | 2 => .debug
  | _ => .trace

end Configuration

inductive UsageError where
  | emptyInput
  /-- An option at the end, in front of another option, or with an empty path. -/
  | noValue (o : ValueOption)
  | badSize (memory : Memory) (cause : SizeError)
  | repeated (o : ValueOption)
  | valuedFlag (f : Flag)
  /-- An unknown option or a second input. -/
  | unknown (text : String)
  | help
  | version
  | noInput
deriving DecidableEq

namespace UsageError

def inputLabel : String := "<INPUT>"

def argument : UsageError → Option String
  | .emptyInput | .noInput => inputLabel
  | .noValue o | .repeated o => o.label
  | .badSize memory _ => (ValueOption.size memory).label
  | .valuedFlag f => f.label
  | .unknown text => text
  | .help | .version => none

def message : UsageError → Option String
  | .badSize _ cause => cause.message
  | .version => "jpu16asm 0.3.0\n"
  | _ => none

end UsageError

/-- A configuration while its command line is read. -/
structure Draft where
  input : Option String := none
  output : Listing.Format → Option String := fun _ => none
  size : (m : Memory) → Option (Size m) := fun _ => none
  verbosity : Nat := 0

namespace Draft

/-- An input is any text but the empty one. -/
def checkInput (d : Draft) : Except UsageError Draft :=
  if d.input = some "" then .error .emptyInput else .ok d

def given (d : Draft) : ValueOption → Bool
  | .output f => (d.output f).isSome
  | .size m => (d.size m).isSome

/-- Gives an option its value, which no option takes twice. -/
def setOption (d : Draft) (o : ValueOption) (value : String) : Except UsageError Draft :=
  if d.given o then .error (.repeated o)
  else
    match o with
    | .output format =>
      if value = "" then .error (.noValue o)
      else .ok { d with output := fun f => if f = format then some value else d.output f }
    | .size memory =>
      match readSize memory value with
      | .error cause => .error (.badSize memory cause)
      | .ok size =>
        .ok { d with size := fun m => if same : memory = m then some (same ▸ size) else d.size m }

def setFlag (d : Draft) : Flag → Except UsageError Draft
  | .verbose => .ok { d with verbosity := min (d.verbosity + 1) 255 }
  | .help => .error .help
  | .version => .error .version

/-- The size that was given, or else the default one. -/
def sizeOf (d : Draft) (m : Memory) : Except SizeError (Size m) :=
  match d.size m with
  | some size => .ok size
  | none => readSize m (ValueOption.defaultSize m)

def finish (d : Draft) : Except UsageError Configuration :=
  match d.input with
  | none => .error .noInput
  | some input => do
    let program ← (d.sizeOf .program).mapError (.badSize .program)
    let data ← (d.sizeOf .data).mapError (.badSize .data)
    return { input, output := d.output, sizes := { program, data }, verbosity := d.verbosity }

end Draft

/-- What an argument left to be looked at. -/
inductive Pending where
  | input
  /-- An option that takes the next plain argument. -/
  | option (o : ValueOption)
  | value (o : ValueOption) (text : String)
deriving DecidableEq

/-- A command line read up to some argument. -/
structure Reader where
  draft : Draft := {}
  pending : Option Pending := none
  /-- Whether a separator made all further arguments plain. -/
  onlyPlain : Bool := false

namespace Reader

def settle (r : Reader) : Except UsageError Draft :=
  match r.pending with
  | none => .ok r.draft
  | some .input => r.draft.checkInput
  | some (.option o) => .error (.noValue o)
  | some (.value o text) => r.draft.setOption o text

/-- A plain argument is the value of an option that waits for one, else the input.
A separator ends the wait. -/
def readPlain (r : Reader) (text : String) : Except UsageError Reader :=
  match r.pending, r.onlyPlain with
  | some (.option o), false => .ok { r with pending := some (.value o text) }
  | _, _ =>
    if r.draft.input.isSome then .error (.unknown text)
    else do
      let draft ← r.settle
      return { r with draft := { draft with input := some text }, pending := some .input }

def read (r : Reader) (text : String) : Except UsageError Reader :=
  match if r.onlyPlain then .plain text else Argument.ofString text with
  | .plain text => r.readPlain text
  | .separator => .ok { r with onlyPlain := true }
  | .option o none => do
    return { r with draft := ← r.settle, pending := some (.option o) }
  | .option o (some value) => do
    return { r with draft := ← (← r.settle).setOption o value, pending := none }
  | .flag f => do
    return { r with draft := ← (← r.settle).setFlag f, pending := none }
  | .valuedFlag f => .error (.valuedFlag f)
  | .unknown text => .error (.unknown text)

end Reader

/-- The configuration of the arguments behind the program's name. -/
def Configuration.ofArguments (arguments : List String) : Except UsageError Configuration := do
  let r ← arguments.foldlM Reader.read {}
  (← r.settle).finish

end TwoPass.Invocation
