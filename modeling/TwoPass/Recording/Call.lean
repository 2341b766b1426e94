import TwoPass.Recording.Session

/-! What a front end does to a session in pass 1, as data. -/
namespace TwoPass

inductive Call where
  | place (memory : Memory) (value : Value) (line : Line)
  | define (symbol : Symbol)
  | defer (action : Action)
deriving DecidableEq

namespace Session

/-- Makes one call. Only placing a word is answered, with its address or a fault. -/
def call (s : Session) : Call → Option (Except Fault Address) × Session
  | .place m v line =>
    let (result, s) := s.place m v line
    (some result, s)
  | .define symbol => (none, s.define symbol)
  | .defer action => (none, s.defer action)

/-- The session after a sequence of calls, whether they succeed or not. -/
def calls (s : Session) (sequence : List Call) : Session :=
  sequence.foldl (fun s c => (s.call c).2) s

end Session
end TwoPass
