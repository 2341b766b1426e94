import TwoPass.Recording.Action
import TwoPass.Recording.Symbol
import TwoPass.Storage.Image

/-! The state of one assembly. During pass 1 the front end places the words it
knows, defines symbols, and defers the rest as actions, oldest first. -/
namespace TwoPass

structure Session where
  sizes : Sizes
  program : Image .program
  data : Image .data
  symbols : SymbolTable
  /-- Deferred actions that pass 2 has not replayed yet, oldest first. -/
  pending : List Action

namespace Session

def start (sizes : Sizes) : Session where
  sizes
  program := .empty .program sizes.program.count
  data := .empty .data sizes.data.count
  symbols := .empty
  pending := []

def image (s : Session) : (m : Memory) → Image m
  | .program => s.program
  | .data => s.data

def place (m : Memory) (v : Value) (line : Line) : Session → Except Fault Address × Session
  | ⟨sizes, program, data, symbols, pending⟩ =>
    match m with
    | .program =>
      let (result, program) := program.append v line
      (result, ⟨sizes, program, data, symbols, pending⟩)
    | .data =>
      let (result, data) := data.append v line
      (result, ⟨sizes, program, data, symbols, pending⟩)

def define (s : Session) (symbol : Symbol) : Session :=
  { s with symbols := s.symbols.insert symbol }

def defer (s : Session) (action : Action) : Session :=
  { s with pending := s.pending ++ [action] }

def store (m : Memory) (a : Address) (v : Value) : Session → Session
  | ⟨sizes, program, data, symbols, pending⟩ =>
    match m with
    | .program => ⟨sizes, program.store a v, data, symbols, pending⟩
    | .data => ⟨sizes, program, data.store a v, symbols, pending⟩

end Session
end TwoPass
