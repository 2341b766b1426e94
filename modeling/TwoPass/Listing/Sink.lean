/-! Writing a text to a sink that may run full. -/
namespace TwoPass.Listing

/-- What a sink received, and whether it took the whole text. -/
structure Received where
  text : String
  complete : Bool
deriving DecidableEq

/-- A sink with a limit takes that many bytes of a longer text. Listings are plain
ASCII, so every character is one byte. -/
def receive (limit : Option Nat) (text : String) : Received :=
  match limit with
  | none => ⟨text, true⟩
  | some limit =>
    if text.utf8ByteSize ≤ limit then ⟨text, true⟩
    else ⟨String.ofList (text.toList.take limit), false⟩

end TwoPass.Listing
