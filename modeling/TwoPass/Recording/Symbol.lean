import TwoPass.Fault

/-! Symbols in the order of their definitions. The first definition of a name is
the one in effect; later ones are kept but never found. -/
namespace TwoPass

structure Symbol where
  name : String
  value : Value
  line : Line
deriving DecidableEq

structure SymbolTable where
  /-- Oldest first. -/
  symbols : List Symbol := []
deriving DecidableEq

namespace SymbolTable

def empty : SymbolTable := {}

def size (t : SymbolTable) : Nat :=
  t.symbols.length

def insert (t : SymbolTable) (s : Symbol) : SymbolTable :=
  ⟨t.symbols ++ [s]⟩

def find? (t : SymbolTable) (name : String) : Option Symbol :=
  t.symbols.find? (·.name = name)

def value? (t : SymbolTable) (name : String) : Option Value :=
  (t.find? name).map (·.value)

def lookup (t : SymbolTable) (name : String) (line : Line) : Except Fault Value :=
  match t.value? name with
  | some v => .ok v
  | none => .error (.undefinedSymbol name line)

@[simp] theorem find?_empty (name : String) : empty.find? name = none := rfl

/-- A definition comes into effect only if its name had none. -/
theorem find?_insert (t : SymbolTable) (s : Symbol) (name : String) :
    (t.insert s).find? name =
      (t.find? name).or (if s.name = name then some s else none) := by
  simp only [find?, insert, List.find?_append, List.find?_singleton, decide_eq_true_eq]

@[simp] theorem size_insert (t : SymbolTable) (s : Symbol) : (t.insert s).size = t.size + 1 := by
  simp [size, insert]

end SymbolTable
end TwoPass
