import TwoPass.Listing.Entity
import TwoPass.Replay.Resolution

/-! Both memories as behavioural VHDL arrays. Only used cells below the capacity
are listed; every other word is zero. -/
namespace TwoPass.Listing.Vhdl

def wordBits (c : Cell) : String :=
  Numeral.binary 6 (c.upper.toNat / 16 % 64) ++ "_" ++
    Numeral.binary 4 (c.upper.toNat % 16) ++ "_" ++
    Numeral.binary 16 c.literal.toNat

/-- One element of an array aggregate; its address is a choice of the aggregate. -/
def entry (choice word : String) : String :=
  "      " ++ choice ++ " => " ++ word

def programWord (c : Cell) : String :=
  "B\"" ++ wordBits c ++ "\""

def dataWord (c : Cell) : String :=
  "X\"" ++ Numeral.hex 4 c.value ++ "\""

/-- The used cells of an image, one to a line, and zero for all others. -/
def aggregate {m : Memory} (word : Cell → String) (image : Image m) : List String :=
  image.usedCells.map (fun (a, c) => entry (Numeral.decimal a) (word c) ++ ",") ++
    [entry "others" (word (.ofWord 0))]

def programDeclaration : List String := [
  "   type PROG_DATA is array (2**nBits_DirProg-1 downto 0) of",
  "      STD_LOGIC_VECTOR (nBits_BusProg-1 downto 0);",
  "",
  "   constant MemoriaProg: PROG_DATA := ("]

def programBody : List String := [
  "   );",
  "begin",
  "   process (SysClk)",
  "   begin",
  "      if rising_edge(SysClk) then",
  "         if CicloInst = '0' and SysHold = '0' then",
  "            DatoProg  <= MemoriaProg(conv_integer(Direccion));",
  "         end if;",
  "      end if;",
  "   end process;",
  "end Funcionamiento;"]

def dataDeclaration : List String := [
  "   type RAM_DATA is array (2**nBits_DirDatos-1 downto 0) of",
  "      STD_LOGIC_VECTOR (nBits_BusDatos-1 downto 0);",
  "",
  "   signal MemoriaRam: RAM_DATA := ("]

def dataBody : List String := [
  "   );",
  "begin",
  "   process (SysClk)",
  "   begin",
  "      if rising_edge(SysClk) then",
  "         if SysHold = '0' and (Ren = '1' or Wen = '1') then",
  "            if Wen = '1' then",
  "               MemoriaRam(conv_integer(Direccion)) <= DatoEnt;",
  "            end if;",
  "            DatoSal <= MemoriaRam(conv_integer(Direccion));",
  "         end if;",
  "      end if;",
  "   end process;",
  "end Funcionamiento;"]

/-- The lines of the description; the last one is not ended by a line break. -/
def lines (images : Images) : List String :=
  Entity.sizePackage images.sizes ++
  Entity.program Entity.behavioral ++ programDeclaration ++
  aggregate programWord images.program ++ programBody ++
  Entity.data Entity.behavioral ++ dataDeclaration ++
  aggregate dataWord images.data ++ dataBody

end TwoPass.Listing.Vhdl
