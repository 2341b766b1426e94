import TwoPass.Listing.Format

/-! What the assembler reports while it works. Every event has a level and a text,
and a reader picks the events of a level and all more severe ones. -/
namespace TwoPass

/-- From the most to the least severe. -/
inductive Level where
  | error
  | warn
  | info
  | debug
  | trace
deriving DecidableEq, Repr

namespace Level

def rank : Level → Nat
  | .error => 1
  | .warn => 2
  | .info => 3
  | .debug => 4
  | .trace => 5

def name : Level → String
  | .error => "ERROR"
  | .warn => "WARN"
  | .info => "INFO"
  | .debug => "DEBUG"
  | .trace => "TRACE"

end Level

inductive Event where
  | started (sizes : Sizes)
  | placed (memory : Memory) (address : Address) (cell : Cell) (line : Line)
  | patched (memory : Memory) (address : Address) (cell : Cell) (value : Value)
  | redefined (symbol : Symbol)
  | defined (symbol : Symbol)
  | released (count : Nat)
  | deferred (action : Action)
  | replaying (action : Action)
  | underflow (line : Line)
  /-- Values that no action took from the stack, bottom first. -/
  | leftOver (values : List Value)
  | recorded
  | replayed (actions : Nat)
  | measured (usage : Usage)
  | onlyChecked (input : String)
  | written (format : Listing.Format) (path : String)
  | completed

namespace Event

def level : Event → Level
  | .onlyChecked _ => .warn
  | .recorded | .replayed _ | .measured _ | .written .. | .completed => .info
  | .started _ | .redefined _ | .released _ | .deferred _ | .underflow _ | .leftOver _ => .debug
  | .placed .. | .patched .. | .defined _ | .replaying _ => .trace

def cellText (memory : Memory) (address : Address) (cell : Cell) : String :=
  memory.name ++ " " ++ Numeral.hex 4 address.val ++ " <- " ++ cell.text

def text : Event → String
  | .started sizes => s!"new assembly session with {sizes.program.text} and {sizes.data.text}"
  | .placed memory address cell line =>
    cellText memory address cell ++ s!" (line {Numeral.decimal line})"
  | .patched memory address cell value =>
    cellText memory address cell ++ s!" (patched with {Numeral.signed value.toInt})"
  | .redefined s =>
    s!"symbol {s.name} redefined on line {Numeral.decimal s.line}, the first definition stays in effect"
  | .defined s =>
    s!"symbol {s.name} = 0x{Numeral.lowerHex 1 s.value.toNat} (line {Numeral.decimal s.line})"
  | .released count => s!"releasing {Numeral.decimal count} symbols"
  | .deferred action => s!"deferring {action.text}"
  | .replaying action => s!"replaying {action.text}"
  | .underflow line => s!"stack underflow while replaying line {Numeral.decimal line}"
  | .leftOver values =>
    s!"{Numeral.decimal values.length} values left on the evaluation stack after pass 2: [" ++
      ", ".intercalate (values.map fun v => Numeral.signed v.toInt) ++ "]"
  | .recorded => "Pass 1: OK"
  | .replayed actions => s!"Pass 2: OK ({Numeral.decimal actions} deferred actions)"
  | .measured usage => s!"Memory usage:\n{usage.text}"
  | .onlyChecked input => s!"No output files requested, {input} was only checked"
  | .written format path => s!"{format.name} output written to {path}"
  | .completed => "Operation completed successfully"

end Event

/-- The events a reader of a level sees, oldest first. No level means none. -/
def Level.select (level : Option Level) (events : List Event) : List Event :=
  match level with
  | none => []
  | some level => events.filter fun e => e.level.rank ≤ level.rank

end TwoPass
