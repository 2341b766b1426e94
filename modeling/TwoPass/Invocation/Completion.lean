import TwoPass.Invocation.Configuration
import TwoPass.Invocation.Volume
import TwoPass.Journal.Operations

/-! The end of an assembly: pass 2, then the requested files in a fixed order. A
fault of pass 2 leaves every file alone; a file that cannot be written ends the
run, and the files before it stay. How a file is written is left open, so that the
program does with the files of the system what is known of those of a volume. -/
namespace TwoPass.Invocation

section
variable {M : Type → Type} [Monad M] (write : String → String → M (Option FileFault))

/-- Writes outputs up to the first one that fails. -/
def writeOutputs (images : Images) :
    List (Listing.Format × String) → M (Option Fault × List (Listing.Format × String))
  | [] => return (none, [])
  | (format, path) :: rest => do
    match ← write path (format.render images) with
    | some cause => return (some (.outputFile path cause), [])
    | none =>
      let (fault, written) ← writeOutputs images rest
      return (fault, (format, path) :: written)

/-- The outcome of an assembly and the outputs that were written. -/
def conclude (session : Session) (c : Configuration) :
    M (Except Fault Usage × List (Listing.Format × String)) :=
  match session.resolve with
  | .error fault => return (.error fault, [])
  | .ok images => do
    match ← writeOutputs write images c.outputs with
    | (some fault, written) => return (.error fault, written)
    | (none, written) => return (.ok images.usage, written)

end

/-- What is reported of an assembly that was concluded. -/
def conclusionEvents (session : Session) (c : Configuration) (outcome : Except Fault Usage)
    (written : List (Listing.Format × String)) : List Event :=
  session.resolveEvents ++
    match session.resolve with
    | .error _ => []
    | .ok _ =>
      (if c.outputs.isEmpty then [.onlyChecked c.input] else []) ++
        written.map (fun (format, path) => .written format path) ++
        match outcome with
        | .ok _ => [.completed]
        | .error _ => []

structure Completion where
  outcome : Except Fault Usage
  volume : Volume
  written : List (Listing.Format × String)

/-- The assembly with the files of a volume. -/
def finish (session : Session) (c : Configuration) (volume : Volume) : Completion :=
  let ((outcome, written), volume) := (conclude Volume.writing session c).run volume
  ⟨outcome, volume, written⟩

def finishEvents (session : Session) (c : Configuration) (volume : Volume) : List Event :=
  let done := finish session c volume
  conclusionEvents session c done.outcome done.written

end TwoPass.Invocation
