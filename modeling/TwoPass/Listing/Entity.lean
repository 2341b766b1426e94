import TwoPass.Storage.Size

/-! The parts of a hardware description that do not depend on the contents of the
memories: the package with the bus widths, and the entities with their ports. -/
namespace TwoPass.Listing.Entity

/-- The package of bus widths at the top of every hardware description. -/
def sizePackage (sizes : Sizes) : List String := [
  "----------------------------------------------",
  "-- Package with the memory size definitions --",
  "----------------------------------------------",
  "package JPU16_MEM_SIZE_DEFS is",
  "   constant nBits_DirProg: integer := " ++ Numeral.decimal sizes.program.addressBits ++ ";",
  "   constant nBits_DirDatos: integer := " ++ Numeral.decimal sizes.data.addressBits ++ ";",
  "end JPU16_MEM_SIZE_DEFS;"]

structure Flavor where
  /-- Clauses for libraries beyond the standard ones. -/
  libraries : List String
  initial : String

def behavioral : Flavor := ⟨[], " := (others => '0')"⟩

def primitive : Flavor := ⟨["Library UNISIM;", "use UNISIM.vcomponents.all;"], ""⟩

def standardLibraries : List String := [
  "library IEEE;",
  "use IEEE.STD_LOGIC_1164.ALL;",
  "use IEEE.STD_LOGIC_ARITH.ALL;",
  "use IEEE.STD_LOGIC_UNSIGNED.ALL;"]

/-- Program memory, up to the declarations of its architecture. -/
def program (flavor : Flavor) : List String :=
  ["",
    "---------------------------",
    "-- Program memory entity --",
    "---------------------------"] ++
  standardLibraries ++ flavor.libraries ++
  ["use work.JPU16_MEM_SIZE_DEFS.all;",
    "",
    "entity JPU16_PROG_MEM is",
    "   generic (nBits_BusProg: integer := 26);",
    "   Port (SysClk:    in  STD_LOGIC;",
    "         SysHold:   in  STD_LOGIC;",
    "         CicloInst: in  STD_LOGIC;",
    "         Direccion: in  STD_LOGIC_VECTOR (nBits_DirProg - 1 downto 0);",
    "         DatoProg:  out STD_LOGIC_VECTOR (nBits_BusProg - 1 downto 0)" ++ flavor.initial ++ ");",
    "end JPU16_PROG_MEM;",
    "",
    "architecture Funcionamiento of JPU16_PROG_MEM is"]

/-- Data memory, up to the declarations of its architecture. -/
def data (flavor : Flavor) : List String :=
  ["",
    "----------------",
    "-- RAM entity --",
    "----------------"] ++
  standardLibraries ++ flavor.libraries ++
  ["use WORK.JPU16_MEM_SIZE_DEFS.ALL;",
    "",
    "entity JPU16_RAM is",
    "   generic (nBits_BusDatos: integer := 16);",
    "   port (SysClk:    in  STD_LOGIC;",
    "         SysHold:   in  STD_LOGIC;",
    "         Ren:       in  STD_LOGIC;",
    "         Wen:       in  STD_LOGIC;",
    "         Direccion: in  STD_LOGIC_VECTOR (nBits_DirDatos-1 downto 0);",
    "         DatoEnt:   in  STD_LOGIC_VECTOR (nBits_BusDatos-1 downto 0);",
    "         DatoSal:   out STD_LOGIC_VECTOR (nBits_BusDatos-1 downto 0)" ++ flavor.initial ++ ");",
    "end JPU16_RAM;",
    "",
    "architecture Funcionamiento of JPU16_RAM is"]

end TwoPass.Listing.Entity
