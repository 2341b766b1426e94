import TwoPass.Invocation.ArgumentParser

/-! The ways to spell an option of a command line with its value. A library that follows the
rules of command lines takes all of them alike. -/
namespace TwoPass.Invocation

/-- The ways to give an option its value. -/
inductive Spelling where
  | shortApart
  | shortJoined
  | shortEquals
  | longApart
  | longEquals
deriving DecidableEq

namespace Spelling

def arguments (o : ValueOption) (value : String) : Spelling → List String
  | .shortApart => ["-" ++ String.singleton o.short, value]
  | .shortJoined => ["-" ++ String.singleton o.short ++ value]
  | .shortEquals => ["-" ++ String.singleton o.short ++ "=" ++ value]
  | .longApart => ["--" ++ o.long, value]
  | .longEquals => ["--" ++ o.long ++ "=" ++ value]

/-- Whether a spelling can be used for a value. -/
def Allows (value : String) : Spelling → Prop
  | .shortApart | .longApart => IsPlain value
  | .shortJoined => value.toList.head? ≠ some '=' ∧ value.toList.head? ≠ some '-'
  | .shortEquals | .longEquals => True

end Spelling

namespace ValueOption

/-- No two options have one name, also where a name begins with another. -/
theorem ofLong?_long (o : ValueOption) : ofLong? o.long = some o := by
  rcases o with (_ | _ | _ | _) | (_ | _) <;> rfl

theorem ofShort?_short (o : ValueOption) : ofShort? o.short = some o := by
  rcases o with (_ | _ | _ | _) | (_ | _) <;> rfl

theorem long_of_ofLong? {name : String} {o : ValueOption} (named : ofLong? name = some o) : o.long = name := by
  simpa using List.find?_some named

theorem short_of_ofShort? {letter : Char} {o : ValueOption} (named : ofShort? letter = some o) :
    o.short = letter := by
  simpa using List.find?_some named

theorem not_mem_long (o : ValueOption) : '=' ∉ o.long.toList := by
  rcases o with (_ | _ | _ | _) | (_ | _) <;> decide

theorem long_ne (o : ValueOption) : o.long ≠ "" := by
  rcases o with (_ | _ | _ | _) | (_ | _) <;> decide

theorem short_ne (o : ValueOption) : o.short ≠ '-' := by
  rcases o with (_ | _ | _ | _) | (_ | _) <;> decide

end ValueOption

theorem Draft.Sets.value_ne {d next : Draft} {o : ValueOption} {value : String}
    (sets : d.Sets o value next) : value ≠ "" := by
  cases sets with
  | output fresh filled => exact filled
  | size fresh accepted =>
    rintro rfl
    contradiction

theorem IsPlain.ne_separator {text : String} (isPlain : IsPlain text) : text ≠ "--" := by
  rintro rfl
  rcases isPlain with other | same
  · exact other rfl
  · contradiction

namespace Spelling
variable {o : ValueOption} {value : String} {spelling : Spelling}

/-- Nothing that is written for an option looks like the separator. -/
theorem not_mem_arguments (allowed : spelling.Allows value) : "--" ∉ spelling.arguments o value := by
  have short : ∀ rest : String, "--" ≠ "-" ++ String.singleton o.short ++ rest := by
    intro rest same
    have spelled := congrArg String.toList same
    rw [String.toList_append, String.toList_append, String.toList_singleton] at spelled
    exact o.short_ne (List.cons.inj (List.cons.inj spelled).2).1.symm
  have long : ∀ rest : String, "--" ≠ "--" ++ (o.long ++ rest) := by
    intro rest same
    have nothing : o.long ++ rest = "" := (String.append_right_inj "--").mp (same.symm.trans (by simp))
    exact o.long_ne (String.append_eq_empty_iff.mp nothing).1
  cases spelling with
  | shortApart =>
    have letter := short ""
    rw [String.append_empty] at letter
    rw [arguments, List.mem_cons, List.mem_singleton, not_or]
    exact ⟨letter, (IsPlain.ne_separator allowed).symm⟩
  | shortJoined =>
    rw [arguments, List.mem_singleton]
    exact short value
  | shortEquals =>
    rw [arguments, List.mem_singleton, String.append_assoc]
    exact short ("=" ++ value)
  | longApart =>
    have name := long ""
    rw [String.append_empty] at name
    rw [arguments, List.mem_cons, List.mem_singleton, not_or]
    exact ⟨name, (IsPlain.ne_separator allowed).symm⟩
  | longEquals =>
    rw [arguments, List.mem_singleton, String.append_assoc, String.append_assoc]
    exact long ("=" ++ value)

end Spelling

/-- All spellings of an option with its value lead to the same place. -/
theorem ArgumentParser.LeftToRight.spelled {ε : Type} {parser : ArgumentParser ε}
    (rules : parser.LeftToRight) {spelling : Spelling} {o : ValueOption} {value : String} {d next : Draft}
    (allowed : spelling.Allows value) (sets : d.Sets o value next) :
    parser.Continues d (spelling.arguments o value) next := by
  have long := o.ofLong?_long
  have short := o.ofShort?_short
  cases spelling with
  | shortApart => exact rules.shortApart short allowed sets
  | shortJoined => exact rules.shortJoined short sets.value_ne allowed.1 allowed.2 sets
  | shortEquals => exact rules.shortEquals short sets
  | longApart => exact rules.longApart long o.not_mem_long allowed sets
  | longEquals => exact rules.longEquals long o.not_mem_long sets

end TwoPass.Invocation
