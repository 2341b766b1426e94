import TwoPass.Replay.Machine

/-! The result of an assembly: both memories after all deferred actions. -/
namespace TwoPass

structure Usage where
  program : Nat
  data : Nat
deriving DecidableEq

def Usage.text (u : Usage) : String :=
  "  - Program memory: " ++ Numeral.decimal u.program ++ " instructions\n" ++
    "  - Data memory: " ++ Numeral.decimal u.data ++ " words"

structure Images where
  sizes : Sizes
  program : Image .program
  data : Image .data

namespace Images

def image (i : Images) : (m : Memory) → Image m
  | .program => i.program
  | .data => i.data

def usage (i : Images) : Usage :=
  ⟨i.program.usedCount, i.data.usedCount⟩

end Images

/-- Runs pass 2 to its end, or to the first fault. -/
def Session.resolve (s : Session) : Except Fault Images :=
  match (Machine.start s).run with
  | (some fault, _) => .error fault
  | (none, ⟨⟨sizes, program, data, _, _⟩, _, _⟩) => .ok ⟨sizes, program, data⟩

end TwoPass
