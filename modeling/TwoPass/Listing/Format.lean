import TwoPass.Listing.BlockRam
import TwoPass.Listing.HexDump
import TwoPass.Listing.MemoryMap
import TwoPass.Listing.Vhdl

/-! The formats in which assembled memories can be written. -/
namespace TwoPass.Listing

inductive Format where
  | vhdl
  /-- VHDL made of block RAM primitives. -/
  | blockRam
  /-- Memory contents for a bitstream tool. -/
  | hexDump
  /-- Where the words of a hex dump live in the bitstream. -/
  | memoryMap
deriving DecidableEq, Repr

namespace Format

def name : Format → String
  | .vhdl => "VHDL"
  | .blockRam => "VHDL (RAMB16)"
  | .hexDump => "MEM"
  | .memoryMap => "BMM"

def render (format : Format) (images : Images) : String :=
  "\n".intercalate <|
    match format with
    | .vhdl => Vhdl.lines images
    | .blockRam => BlockRam.lines images
    | .hexDump => HexDump.lines images
    | .memoryMap => MemoryMap.lines images.sizes

end Format
end TwoPass.Listing
