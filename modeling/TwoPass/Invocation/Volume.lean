import TwoPass.Fault

/-! The files an assembly can write. Creating a file fails without any effect or
empties it; a full device can be opened but takes no bytes. -/
namespace TwoPass.Invocation

structure Volume where
  /-- The texts of the files that exist. -/
  contents : String → Option String
  /-- The file that a path names; several paths can name one file. -/
  file : String → String
  /-- Why a path cannot be opened for writing beside the files that exist. -/
  refusal : (String → Option String) → String → Option FileFault
  isFull : String → Bool

namespace Volume

def denial (volume : Volume) (path : String) : Option FileFault :=
  volume.refusal volume.contents path

/-- What stands before each slash of a path, the outermost directory first. -/
def ancestors (before : List Char) : List Char → List String
  | [] => []
  | c :: rest =>
    let deeper := ancestors (before ++ [c]) rest
    if c = '/' then String.ofList before :: deeper else deeper

def lastName (path : String) : String :=
  String.ofList (path.toList.reverse.takeWhile (· ≠ '/')).reverse

/-- Slashes at the end of a path ask for a directory. -/
def endsInSlash (path : String) : Bool :=
  path.toList.getLast? = some '/'

def withoutSlashes (path : String) : List Char :=
  (path.toList.reverse.dropWhile (· = '/')).reverse

def isLongName (path : String) : Bool :=
  255 < (lastName path).utf8ByteSize

def isLongPath (path : String) : Bool :=
  4095 < path.utf8ByteSize

/-- Where a name leads from a directory, which is given by the names on the way to it,
the last one first. -/
def enter (absolute : Bool) (directory : List (List Char)) (name : List Char) : List (List Char) :=
  if name = [] ∨ name = ['.'] then directory
  else if name = ['.', '.'] then
    match directory with
    | [] => if absolute then [] else [name]
    | last :: outer => if last = name then name :: directory else outer
  else name :: directory

/-- The shortest path to where a path leads, among directories that are not links. -/
def shortest (path : String) : String :=
  let absolute := path.toList.head? = some '/'
  let names := (path.toList.splitOn '/').foldl (enter absolute) []
  let relative := ['/'].intercalate names.reverse
  String.ofList (if absolute then '/' :: relative else if names = [] then ['.'] else relative)

/-- The rules of opening, in order: the path as a whole, every directory on the way to
it from the outermost, then the name itself. -/
def refusalAmong (directories fullDevices : List String) (contents : String → Option String)
    (path : String) : Option FileFault :=
  let crossing (directory : String) : Option FileFault :=
    let place := shortest directory
    if isLongName directory then some .nameTooLong
    else if directory = "" ∨ place ∈ directories then none
    else if (contents place).isSome ∨ place ∈ fullDevices then some .notDirectory
    else some .notFound
  if '\x00' ∈ path.toList then some .nulInName
  else if isLongPath path then some .nameTooLong
  else
    match (ancestors [] (withoutSlashes path)).findSome? crossing with
    | some fault => some fault
    | none =>
      if endsInSlash path then some .isDirectory
      else if isLongName path then some .nameTooLong
      else if lastName path ∈ [".", ".."] ∨ shortest path ∈ directories then some .isDirectory
      else none

/-- A volume without files, with the given directories and full devices, all of them by
their shortest paths. -/
def ofDirectories (directories fullDevices : List String) : Volume where
  contents := fun _ => none
  file := shortest
  refusal := refusalAmong directories fullDevices
  isFull := fun file => file ∈ fullDevices

def write (volume : Volume) (path text : String) : Except FileFault Volume :=
  let file := volume.file path
  match volume.denial path with
  | some fault => .error fault
  | none =>
    if volume.isFull file then
      if text = "" then .ok volume else .error .noSpace
    else
      .ok { volume with contents := fun f => if f = file then some text else volume.contents f }

/-- Writing as a change of the volume; one that fails leaves it alone. -/
def writing (path text : String) : StateM Volume (Option FileFault) := fun volume =>
  match volume.write path text with
  | .error cause => (some cause, volume)
  | .ok volume => (none, volume)

end Volume
end TwoPass.Invocation
