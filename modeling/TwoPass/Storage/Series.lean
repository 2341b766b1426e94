import TwoPass.Storage.Image

/-! Placing a run of words whose values and source lines grow in equal steps. The
run ends early at the first word that cannot be placed. -/
namespace TwoPass

structure Series where
  count : Nat
  first : Value
  /-- The difference between one word and the next. -/
  delta : Value
  /-- The line of the first word; every word has a line of its own. -/
  line : Line

structure Placement where
  placed : Nat := 0
  last : Option Address := none
  stopped : Option Fault := none

namespace Series
variable {σ : Type}

/-- Places `n` further words after `done`. -/
def placeFrom (place : Value → Line → σ → Except Fault Address × σ) (delta : Value) :
    Nat → Value → Line → Placement → σ → Placement × σ
  | 0, _, _, done, s => (done, s)
  | n + 1, v, line, done, s =>
    match place v line s with
    | (.ok a, s) =>
      placeFrom place delta n (v + delta) (line + 1)
        { done with placed := done.placed + 1, last := some a } s
    | (.error fault, s) => ({ done with stopped := some fault }, s)

def place (series : Series) (place : Value → Line → σ → Except Fault Address × σ) (s : σ) :
    Placement × σ :=
  placeFrom place series.delta series.count series.first series.line {} s

end Series
end TwoPass
