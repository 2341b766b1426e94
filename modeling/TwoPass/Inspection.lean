import TwoPass.Recording.Session

/-! A developer's view of an assembly: records with named fields, nested on one
line. -/
namespace TwoPass.Inspection

def record (name : String) (fields : List (String × String)) : String :=
  name ++ " \x7b " ++ ", ".intercalate (fields.map fun (f, v) => f ++ ": " ++ v) ++ " \x7d"

def list (items : List String) : String :=
  "[" ++ ", ".intercalate items ++ "]"

/-- Names are shown in quotes as they are. -/
def quoted (name : String) : String :=
  "\"" ++ name ++ "\""

def memory : Memory → String
  | .program => "Program"
  | .data => "Data"

def size {m : Memory} (s : Size m) : String :=
  (match m with
    | .program => "Instructions"
    | .data => "Words") ++ Numeral.decimal s.count

def unaryOperator : UnaryOperator → String
  | .negate => "Negate"
  | .complement => "Not"

def binaryOperator : BinaryOperator → String
  | .or => "Or"
  | .xor => "Xor"
  | .and => "And"
  | .shiftLeft => "LeftShift"
  | .shiftRight => "RightShift"
  | .add => "Add"
  | .subtract => "Subtract"
  | .multiply => "Multiply"
  | .divide => "Divide"
  | .modulus => "Modulus"
  | .power => "Exponentiation"

def operator : Operator → String
  | .unary op => "Unary(" ++ unaryOperator op ++ ")"
  | .binary op => "Binary(" ++ binaryOperator op ++ ")"

def action (a : Action) : String :=
  let line := ("line", Numeral.decimal a.line)
  match a.work with
  | .literal v => record "PushLiteral" [("value", Numeral.signed v.toInt), line]
  | .symbol name => record "PushSymbol" [("name", quoted name), line]
  | .apply op swapped =>
    record "ApplyOperator"
      [("operator", operator op), ("swap_operands", if swapped then "true" else "false"), line]
  | .store .data a => record "StoreToData" [("address", Numeral.decimal a.val), line]
  | .store .program a => record "StoreToProgram" [("address", Numeral.decimal a.val), line]

def symbol (s : Symbol) : String :=
  record "Symbol"
    [("name", quoted s.name), ("value", Numeral.signed s.value.toInt),
      ("line", Numeral.decimal s.line)]

/-- The cells themselves are left out. -/
def image {m : Memory} (i : Image m) : String :=
  "MemoryImage \x7b kind: " ++ memory m ++ ", capacity: " ++ Numeral.decimal i.capacity ++
    ", cursor: " ++ Numeral.decimal i.cursor ++ ", used: " ++ Numeral.decimal i.usedCount ++
    ", .. \x7d"

def sizes (s : Sizes) : String :=
  record "MemoryOptions" [("program", size s.program), ("data", size s.data)]

def session (s : Session) : String :=
  record "AssemblySession"
    [("options", sizes s.sizes),
      ("program", image s.program),
      ("data", image s.data),
      ("symbols", record "SymbolTable" [("symbols", list (s.symbols.symbols.map symbol))]),
      ("actions", record "ActionQueue" [("actions", list (s.pending.map action))])]

end TwoPass.Inspection
