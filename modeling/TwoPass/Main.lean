import TwoPass.Invocation.Completion
import TwoPass.Invocation.Report

/-! The command line without a front end: it reads the arguments and writes the
requested descriptions of memories in which nothing was recorded. -/
namespace TwoPass.Invocation

def printEvents (level : Level) (events : List Event) : IO Unit := do
  for event in Level.select (some level) events do
    IO.eprintln (event.level.name ++ " " ++ event.text)

def printUsage (error : UsageError) : IO Unit := do
  if let some argument := error.argument then
    IO.eprintln ("error in argument " ++ argument)
  if let some message := error.message then
    IO.eprint message

/-- What the system's own error says about a file that cannot be written. -/
def fileFault? : IO.Error → Option FileFault
  | .noFileOrDirectory _ 2 _ => some .notFound
  | .inappropriateType _ 20 _ => some .notDirectory
  | .inappropriateType _ 21 _ => some .isDirectory
  | .resourceExhausted _ 28 _ => some .noSpace
  | .invalidArgument _ 36 _ => some .nameTooLong
  | _ => none

/-- Any other error of the system ends the program as it is. -/
def writeFile (path text : String) : IO (Option FileFault) := do
  if '\x00' ∈ path.toList then return some .nulInName
  try
    IO.FS.withFile path .write fun file => do
      file.putStr text
      -- a full device is noticed only here
      file.flush
    return none
  catch error =>
    match fileFault? error with
    | some fault => return some fault
    | none => throw error

end TwoPass.Invocation

section
open TwoPass TwoPass.Invocation

/-- Exits with 0 once all files are written, with 1 at a fault, with 2 if the arguments are
wrong. -/
def main (arguments : List String) : IO UInt32 := do
  match Configuration.ofArguments arguments with
  | .error .version => printUsage .version; return 0
  | .error error => printUsage error; return 2
  | .ok configuration =>
    let session := Session.start configuration.sizes
    let (outcome, written) ← conclude writeFile session configuration
    printEvents configuration.level (conclusionEvents session configuration outcome written)
    match outcome with
    | .error fault => IO.eprint (Report.text fault); return 1
    | .ok _ => return 0

end
