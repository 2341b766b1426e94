import TwoPass.Fault

/-! The report of a fault that ends the program: its code, its message, what the
file system said, and help. Texts are set in lines of 78 columns behind a label. A
line break in a text is kept, and spaces at the end of a line are dropped. Only
plain lines are filled, since a plain character takes exactly one column. -/
namespace TwoPass.Invocation.Report

/-- A run of characters without a space, and the spaces behind it. A line that
starts with spaces starts with an empty word. -/
structure Word where
  chars : List Char
  spaces : Nat

def Word.cons (c : Char) : List Word → List Word
  | [] => if c = ' ' then [⟨[], 1⟩] else [⟨[c], 0⟩]
  | ⟨chars, spaces⟩ :: rest =>
    if c ≠ ' ' then ⟨c :: chars, spaces⟩ :: rest
    else if chars.isEmpty then ⟨[], spaces + 1⟩ :: rest
    else ⟨[], 1⟩ :: ⟨chars, spaces⟩ :: rest

def words (line : List Char) : List Word :=
  line.foldr Word.cons []

/-- Cuts a word that is wider than a line into parts that fill one. -/
def Word.cut (width : Nat) (w : Word) : List Word :=
  if w.chars.length ≤ width then [w]
  else
    let cuts := (w.chars.length - 1) / width
    (List.range cuts).map (fun i => ⟨(w.chars.drop (i * width)).take width, 0⟩) ++
      [⟨w.chars.drop (cuts * width), w.spaces⟩]

/-- Continues a line that is followed by `gap` spaces. A word that would pass the
width starts a new line. -/
def fill (width : Nat) : List Char → Nat → List Word → List (List Char)
  | line, _, [] => [line]
  | line, gap, w :: rest =>
    if line.length + gap + w.chars.length ≤ width then
      fill width (line ++ List.replicate gap ' ' ++ w.chars) w.spaces rest
    else line :: fill width w.chars w.spaces rest

def isPlain (c : Char) : Bool :=
  ' ' ≤ c && c ≤ '~'

def withoutFinalSpaces (line : List Char) : List Char :=
  (line.reverse.dropWhile (· = ' ')).reverse

/-- The lines that one line of a text becomes in a given width. -/
def setLine (width : Nat) (line : List Char) : List (List Char) :=
  if line.all isPlain then fill width [] 0 ((words line).flatMap (Word.cut width))
  else [withoutFinalSpaces line]

/-- A text behind a label, with a label of the same width for further lines. -/
def paragraph (label further text : String) : String :=
  let lines := (text.splitOn "\n").flatMap fun line => setLine (78 - label.length) line.toList
  label ++ ("\n" ++ further).intercalate (lines.map String.ofList) ++ "\n"

def text (fault : Fault) : String :=
  fault.code ++ "\n\n" ++ paragraph "  × " "  │ " fault.message ++
    (match fault with
      | .outputFile _ cause => paragraph "  ╰─▶ " "      " cause.message
      | _ => "") ++
    match fault.help with
    | some help => paragraph "  help: " "        " help
    | none => ""

end TwoPass.Invocation.Report
