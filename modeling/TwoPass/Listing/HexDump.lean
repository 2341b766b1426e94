import TwoPass.Replay.Resolution

/-! The contents of both memories as hexadecimal lines, program memory first.
Every line starts with the byte address of its first word. A cell is written with
its contents whether it is used or not. -/
namespace TwoPass.Listing.HexDump

structure Layout where
  wordsPerLine : Nat
  base : Nat
  bytesPerWord : Nat

def layout : Memory → Layout
  | .program => ⟨8, 0, 4⟩
  | .data => ⟨16, 0x10000, 2⟩

def word (l : Layout) (c : Cell) : String :=
  " " ++ Numeral.hex (2 * l.bytesPerWord) c.value

/-- The line of the words from address `a` on. -/
def line (l : Layout) (a : Nat) (words : List Cell) : String :=
  "@" ++ Numeral.hex 5 (l.base + a * l.bytesPerWord) ++ String.join (words.map (word l))

def memoryLines {m : Memory} (image : Image m) : List String :=
  let l := layout m
  (List.range (image.capacity / l.wordsPerLine)).map fun i =>
    line l (i * l.wordsPerLine) (image.slice (i * l.wordsPerLine) l.wordsPerLine)

/-- The lines of the dump. Every line is ended by a line break, so the last one is
empty. -/
def lines (images : Images) : List String :=
  memoryLines images.program ++ memoryLines images.data ++ [""]

end TwoPass.Listing.HexDump
