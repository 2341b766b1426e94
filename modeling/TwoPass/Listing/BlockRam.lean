import TwoPass.Listing.Entity
import TwoPass.Replay.Resolution

/-! Both memories as VHDL that instantiates block RAM primitives. The contents of a
block are 64 rows of 256 bits, the word at the highest address of a row first. With
more than one block, the upper address bits select the block. -/
namespace TwoPass.Listing.BlockRam

structure Wiring where
  /-- Names of the blocks, up to their number. -/
  instanceName : String
  primitive : String
  digits : Nat
  busType : String
  bus : String
  busWidth : String
  /-- When the memory is accessed at all. -/
  access : String
  /-- The address bits above those within a block. -/
  upperAddress : String
  output : String
  /-- The part of a block's output that is used. -/
  outputBits : String

def wiring : Memory → Wiring
  | .program => {
      instanceName := "MemoriaProg"
      primitive := "RAMB16_S36"
      digits := 8
      busType := "PROG_DATA_BUS"
      bus := "BusProg"
      busWidth := "31 downto 0"
      access := "CicloInst = '0' and SysHold = '0'"
      upperAddress := "Direccion(nBits_DirProg-1 downto 9)"
      output := "DatoProg"
      outputBits := "(nBits_BusProg-1 downto 0)" }
  | .data => {
      instanceName := "MemoriaRam"
      primitive := "RAMB16_S18"
      digits := 4
      busType := "RAM_DATA_BUS"
      bus := "BusRam"
      busWidth := "nBits_BusDatos-1 downto 0"
      access := "SysHold = '0' and (Ren = '1' or Wen = '1')"
      upperAddress := "Direccion(nBits_DirDatos-1 downto 10)"
      output := "DatoSal"
      outputBits := "" }

def rowCount : Nat := 64

def parityRowCount : Nat := 8

/-- The words of a row, highest address first. -/
def rowDigits (m : Memory) (words : List Cell) : String :=
  String.join <| words.reverse.map fun c =>
    Numeral.hex (wiring m).digits (c.value % (m.wordMask.toNat + 1))

/-- One generic of a block, up to what ends it. -/
def generic (name : String) (row : Nat) (digits : String) : String :=
  "      " ++ name ++ Numeral.hex 2 row ++ " => X\"" ++ digits ++ "\""

/-- The contents of the block whose first word is at `start`. -/
def rows {m : Memory} (image : Image m) (start : Nat) : List String :=
  let perRow := m.blockWords / rowCount
  (List.range rowCount).map fun row =>
    generic "INIT_" row (rowDigits m (image.slice (start + row * perRow) perRow)) ++ ","

/-- Parity is not used; its last row closes the generics of a block. -/
def parityRows : List String :=
  (List.range parityRowCount).map fun row =>
    generic "INITP_" row (String.ofList (List.replicate 64 '0')) ++
      if row + 1 = parityRowCount then ")" else ","

def ports (m : Memory) (number : String) : List String :=
  match m with
  | .program => [
      "      DO => BusProg(" ++ number ++ "),              --32-bit data output",
      "      DOP => open,                   --4-bit parity output",
      "      ADDR => Direccion(8 downto 0), --9-bit address input",
      "      CLK => SysClk,                 --Clock input",
      "      DI => X\"00000000\",             --32-bit data input",
      "      DIP => \"0000\",                 --4-bit parity input",
      "      EN => CS(" ++ number ++ "),                   --Enable (chip select) input",
      "      SSR => '0',                    --Synchronous set/reset input",
      "      WE => '0'                      --Write enable input"]
  | .data => [
      "      DO => BusRam(" ++ number ++ "),               --16-bit data output",
      "      DOP => open,                   --2-bit parity output",
      "      ADDR => Direccion(9 downto 0), --10-bit address input",
      "      CLK => SysClk,                 --Clock input",
      "      DI => DatoEnt,                 --16-bit data input",
      "      DIP => \"00\",                   --2-bit parity input",
      "      EN => CS(" ++ number ++ "),                   --Enable (chip select) input",
      "      SSR => '0',                    --Synchronous set/reset input",
      "      WE => Wen                      --Write enable input"]

/-- Output registers start at zero, in their own width. -/
def registerValues : Memory → List String
  | .program => [
      "      INIT => X\"000000000\",       --Initial value of the output register",
      "      SRVAL => X\"000000000\",      --Set/reset value of the output register"]
  | .data => [
      "      INIT => X\"00000\",           --Initial value of the output register",
      "      SRVAL => X\"00000\",          --Set/reset value of the output register"]

/-- An instance with the rows of its contents. -/
def primitiveInstance (m : Memory) (number : Nat) (contents : List String) : List String :=
  let w := wiring m
  ["   " ++ w.instanceName ++ Numeral.decimal number ++ ": " ++ w.primitive,
    "   generic map ("] ++
  registerValues m ++
  ["      WRITE_MODE => \"READ_FIRST\", --Read before write"] ++
  contents ++ parityRows ++
  ["   port map ("] ++ ports m (Numeral.decimal number) ++
  ["   );", ""]

def block {m : Memory} (image : Image m) (number : Nat) : List String :=
  primitiveInstance m number (rows image (number * m.blockWords))

def architecture {m : Memory} (size : Size m) (image : Image m) : List String :=
  let w := wiring m
  let top := Numeral.decimal (size.blocks - 1)
  ["   type " ++ w.busType ++ " is array (" ++ top ++ " downto 0) of STD_LOGIC_VECTOR (" ++
      w.busWidth ++ ");",
    "",
    "   signal " ++ w.bus ++ ": " ++ w.busType ++ ";",
    "   signal CS: STD_LOGIC_VECTOR (" ++ top ++ " downto 0);",
    "begin"] ++
  (if 1 < size.blocks then [
    "   Chip_Select: for i in 0 to " ++ top ++ " generate",
    "      CS(i) <= '1' when " ++ w.access ++ " and",
    "               " ++ w.upperAddress ++ " = i else '0';",
    "   end generate;",
    ""]
  else [
    "   CS(0) <= '1' when " ++ w.access ++ " else '0';",
    ""]) ++
  (List.range size.blocks).flatMap (block image) ++
  (if 1 < size.blocks then [
    "   " ++ w.output ++ " <= " ++ w.bus ++ "(conv_integer(" ++ w.upperAddress ++ "))" ++
      w.outputBits ++ ";"]
  else [
    "   " ++ w.output ++ " <= " ++ w.bus ++ "(0)" ++ w.outputBits ++ ";"]) ++
  ["end Funcionamiento;"]

/-- The lines of the description; the last one is not ended by a line break. -/
def lines (images : Images) : List String :=
  Entity.sizePackage images.sizes ++
  Entity.program Entity.primitive ++ architecture images.sizes.program images.program ++
  Entity.data Entity.primitive ++ architecture images.sizes.data images.data

end TwoPass.Listing.BlockRam
