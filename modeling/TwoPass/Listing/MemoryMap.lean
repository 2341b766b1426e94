import TwoPass.Listing.HexDump

/-! The map that says which block RAM holds which byte addresses of a hex dump. It
depends on the sizes of the memories and not on their contents. -/
namespace TwoPass.Listing.MemoryMap

structure Space where
  name : String
  /-- The path of its block RAMs, up to their number. -/
  instancePath : String
  /-- Bits of the bus that one block serves. -/
  bus : String

def space : Memory → Space
  | .program => ⟨"MemoriaPrograma", "CPU/PROG_MEM/MemoriaProg", "[31:0]"⟩
  | .data => ⟨"MemoriaRam", "CPU/RAM/MemoriaRam", "[15:0]"⟩

def block (s : Space) (number : Nat) : List String := [
  "      BUS_BLOCK",
  "         " ++ s.instancePath ++ Numeral.decimal number ++ " " ++ s.bus ++ ";",
  "      END_BUS_BLOCK;"]

def addressSpace {m : Memory} (size : Size m) : List String :=
  let s := space m
  let l := HexDump.layout m
  let last := l.base + size.count * l.bytesPerWord - 1
  ["   ADDRESS_SPACE " ++ s.name ++ " RAMB16 [0x" ++ Numeral.hex 5 l.base ++ ":0x" ++
      Numeral.hex 5 last ++ "]"] ++
    (List.range size.blocks).flatMap (block s) ++
    ["   END_ADDRESS_SPACE;"]

/-- The lines of the map; the last one is not ended by a line break. -/
def lines (sizes : Sizes) : List String :=
  ["ADDRESS_MAP JPU16 PPC405 0"] ++ addressSpace sizes.program ++ addressSpace sizes.data ++
    ["END_ADDRESS_MAP;"]

end TwoPass.Listing.MemoryMap
