import Mathlib.Data.List.TakeWhile
import TwoPass.Proofs.Reading.Text
import TwoPass.Proofs.Spelling

/-! The reader of command lines follows their rules. It looks at a value only when the next
argument is there, so what it has read so far is the draft it would settle for. -/
namespace TwoPass.Invocation

namespace Argument
variable {text name value : String} {letter : Char} {o : ValueOption} {rest : List Char}

theorem ofString_plain (isPlain : IsPlain text) : ofString text = .plain text := by
  rcases isPlain with other | rfl
  · unfold ofString
    split
    · rename_i spelled
      simp [spelled] at other
    · rename_i spelled
      simp [spelled] at other
    · rename_i spelled
      simp [spelled] at other
    · rfl
  · rfl

theorem ofString_short (spelled : text.toList = '-' :: letter :: rest)
    (named : ValueOption.ofShort? letter = some o) : ofString text = ofShort letter rest := by
  obtain rfl := ValueOption.short_of_ofShort? named
  unfold ofString
  rw [spelled]
  rcases o with (_ | _ | _ | _) | (_ | _) <;> rfl

theorem ofString_long (spelled : text.toList = '-' :: '-' :: rest) (filled : rest ≠ []) :
    ofString text = ofLong rest := by
  cases rest with
  | nil => contradiction
  | cons first rest =>
    unfold ofString
    rw [spelled]
    rfl

theorem ofShort_alone (named : ValueOption.ofShort? letter = some o) : ofShort letter [] = .option o none := by
  rw [ofShort, named]

theorem ofShort_equals (named : ValueOption.ofShort? letter = some o) (value : String) :
    ofShort letter ('=' :: value.toList) = .option o (some value) := by
  simp only [ofShort, named, String.ofList_toList]

theorem ofShort_joined (named : ValueOption.ofShort? letter = some o) (filled : value ≠ "")
    (other : value.toList.head? ≠ some '=') : ofShort letter value.toList = .option o (some value) := by
  rw [ofShort, named]
  · simp only [String.ofList_toList]
  · exact mt String.toList_eq_nil_iff.mp filled
  · intro behind spelled
    rw [spelled] at other
    exact other rfl

theorem ofLong_alone (named : ValueOption.ofLong? name = some o) (ends : '=' ∉ name.toList) :
    ofLong name.toList = .option o none := by
  have split : splitValue name.toList = (name.toList, none) := by
    rw [splitValue, List.dropWhile_eq_nil_iff.mpr (Reading.ne_of_not_mem ends)]
  simp only [ofLong, split, String.ofList_toList, named, Option.map_none]

theorem ofLong_equals (named : ValueOption.ofLong? name = some o) (ends : '=' ∉ name.toList)
    (value : String) : ofLong (name.toList ++ '=' :: value.toList) = .option o (some value) := by
  have split : splitValue (name.toList ++ '=' :: value.toList) = (name.toList, some value.toList) := by
    rw [splitValue, Reading.dropWhile_mark ends, Reading.takeWhile_mark ends]
  simp only [ofLong, split, String.ofList_toList, named, Option.map_some]

/-- Two dashes are the separator only where nothing follows them. -/
theorem ofString_eq_separator_iff : ofString text = .separator ↔ text = "--" := by
  constructor
  · intro recognised
    unfold ofString at recognised
    split at recognised
    · rename_i spelled
      exact String.toList_inj.mp spelled
    · unfold ofLong at recognised
      grind
    · unfold ofShort at recognised
      grind
    · contradiction
  · rintro rfl
    rfl

end Argument

theorem Draft.Sets.setOption_eq {d next : Draft} {o : ValueOption} {value : String}
    (sets : d.Sets o value next) : d.setOption o value = .ok next := by
  cases sets with
  | output fresh filled => simp [setOption, given, fresh, filled]
  | size fresh accepted => simp [setOption, given, fresh, accepted]

theorem Draft.input_setOption {d next : Draft} {o : ValueOption} {value : String}
    (set : d.setOption o value = .ok next) : next.input = d.input := by
  unfold setOption at set
  split at set
  · contradiction
  · split at set
    · split at set
      · contradiction
      · cases set
        rfl
    · split at set
      · contradiction
      · cases set
        rfl

namespace Reader
variable {r after : Reader} {d next : Draft} {text : String}

theorem exists_of_bind_eq_ok {ε α β : Type} {first : Except ε α} {second : α → Except ε β} {result : β}
    (done : first >>= second = .ok result) : ∃ between, first = .ok between ∧ second between = .ok result := by
  cases first with
  | error cause => contradiction
  | ok between => exact ⟨between, rfl, done⟩

theorem input_settle (settled : r.settle = .ok d) : d.input = r.draft.input := by
  unfold settle at settled
  split at settled
  · cases settled
    rfl
  · unfold Draft.checkInput at settled
    split at settled
    · contradiction
    · cases settled
      rfl
  · contradiction
  · exact Draft.input_setOption settled

theorem onlyPlain_readPlain (read : r.readPlain text = .ok after) : after.onlyPlain = r.onlyPlain := by
  unfold readPlain at read
  split at read
  · cases read
    rfl
  · split at read
    · contradiction
    · obtain ⟨draft, -, rest⟩ := exists_of_bind_eq_ok read
      cases rest
      rfl

theorem onlyPlain_read (read : r.read text = .ok after) :
    after.onlyPlain = true ↔ r.onlyPlain = true ∨ text = "--" := by
  rw [← Argument.ofString_eq_separator_iff]
  unfold Reader.read at read
  cases options : r.onlyPlain with
  | true =>
    rw [options, if_pos rfl] at read
    simp [onlyPlain_readPlain read, options]
  | false =>
    rw [options, if_neg Bool.false_ne_true] at read
    generalize Argument.ofString text = argument at read ⊢
    cases argument with
    | separator =>
      cases read
      simp
    | plain same => simp [onlyPlain_readPlain read, options]
    | option o value =>
      cases value with
      | none =>
        obtain ⟨draft, -, rest⟩ := exists_of_bind_eq_ok read
        cases rest
        simp
      | some value =>
        obtain ⟨draft, -, rest⟩ := exists_of_bind_eq_ok read
        obtain ⟨final, -, rest⟩ := exists_of_bind_eq_ok rest
        cases rest
        simp
    | flag f =>
      obtain ⟨draft, -, rest⟩ := exists_of_bind_eq_ok read
      obtain ⟨final, -, rest⟩ := exists_of_bind_eq_ok rest
      cases rest
      simp
    | valuedFlag | unknown => contradiction

/-- Options are recognised until a separator was read. -/
theorem onlyPlain_foldlM {arguments : List String} (read : arguments.foldlM Reader.read r = .ok after) :
    after.onlyPlain = true ↔ r.onlyPlain = true ∨ "--" ∈ arguments := by
  induction arguments generalizing r with
  | nil =>
    cases read
    simp
  | cons first arguments ih =>
    rw [List.foldlM_cons] at read
    obtain ⟨between, early, late⟩ := exists_of_bind_eq_ok read
    rw [ih late, onlyPlain_read early, List.mem_cons, or_assoc, eq_comm (a := first)]

/-- A plain argument that no option waits for is the input. -/
theorem readPlain_input (settled : r.settle = .ok d) {path : String} (fresh : d.input = none)
    (filled : path ≠ "") :
    ∃ after, r.readPlain path = .ok after ∧ after.settle = .ok { d with input := some path } := by
  have unset : r.draft.input = none := (input_settle settled).symm.trans fresh
  refine ⟨{ r with draft := { d with input := some path }, pending := some .input }, ?_, ?_⟩
  · unfold readPlain
    split
    · rename_i waiting _
      simp [settle, waiting] at settled
    · simp [unset, settled, bind, Except.bind, pure, Except.pure]
  · simp [settle, Draft.checkInput, filled]

/-- Options are still told from plain arguments, and nothing is wrong with what was read. -/
structure Ready (r : Reader) (d : Draft) : Prop where
  settled : r.settle = .ok d
  options : r.onlyPlain = false

namespace Ready
variable {o : ValueOption} {first value : String}

theorem joined (ready : r.Ready d) (recognised : Argument.ofString first = .option o (some value))
    (sets : d.Sets o value next) :
    ∃ after, [first].foldlM read r = .ok after ∧ after.settle = .ok next := by
  refine ⟨{ r with draft := next, pending := none }, ?_, rfl⟩
  simp [read, ready.options, recognised, ready.settled, sets.setOption_eq, bind, Except.bind, pure,
    Except.pure]

/-- The value is looked at only later, but nothing else is left to be settled. -/
theorem apart (ready : r.Ready d) (recognised : Argument.ofString first = .option o none)
    (isPlain : IsPlain value) (sets : d.Sets o value next) :
    ∃ after, [first, value].foldlM read r = .ok after ∧ after.settle = .ok next := by
  refine ⟨{ r with draft := d, pending := some (.value o value) }, ?_, sets.setOption_eq⟩
  simp [read, readPlain, ready.options, recognised, Argument.ofString_plain isPlain, ready.settled, bind,
    Except.bind, pure, Except.pure]

theorem verbose (ready : r.Ready d) :
    ∃ after, ["--" ++ Flag.verbose.long].foldlM read r = .ok after ∧
      after.settle = .ok { d with verbosity := min (d.verbosity + 1) 255 } := by
  refine ⟨{ r with draft := { d with verbosity := min (d.verbosity + 1) 255 }, pending := none }, ?_, rfl⟩
  have recognised : Argument.ofString ("--" ++ Flag.verbose.long) = .flag .verbose := rfl
  simp only [List.foldlM_cons, List.foldlM_nil, read, ready.options, recognised, ready.settled, Draft.setFlag,
    bind, Except.bind, pure, Except.pure, Bool.false_eq_true, if_false]

theorem plain (ready : r.Ready d) (isPlain : IsPlain value) (fresh : d.input = none) (filled : value ≠ "") :
    ∃ after, [value].foldlM read r = .ok after ∧ after.settle = .ok { d with input := some value } := by
  obtain ⟨after, readPlain, settled⟩ := readPlain_input ready.settled fresh filled
  refine ⟨after, ?_, settled⟩
  simp [read, ready.options, Argument.ofString_plain isPlain, readPlain, bind, Except.bind, pure, Except.pure]

theorem separator (ready : r.Ready d) :
    ∃ after, ["--"].foldlM read r = .ok after ∧ after.settle = .ok d := by
  refine ⟨{ r with onlyPlain := true }, ?_, ready.settled⟩
  have recognised : Argument.ofString "--" = .separator := rfl
  simp [read, ready.options, recognised, bind, Except.bind, pure, Except.pure]

end Ready

/-- The reader as a library for the declared options. -/
def parser : ArgumentParser UsageError where
  Matches arguments d := ∃ r, arguments.foldlM read {} = .ok r ∧ r.settle = .ok d
  parse := Configuration.ofArguments

theorem continues {written : List String}
    (step : ∀ r : Reader, r.Ready d → ∃ after, written.foldlM read r = .ok after ∧ after.settle = .ok next) :
    parser.Continues d written next := by
  rintro arguments ⟨r, before, settled⟩ unseparated
  have options : r.onlyPlain = false := by
    rw [← Bool.not_eq_true, onlyPlain_foldlM before]
    simpa using unseparated
  obtain ⟨after, further, final⟩ := step r ⟨settled, options⟩
  refine ⟨after, ?_, final⟩
  rw [List.foldlM_append, before]
  exact further

theorem leftToRight : parser.LeftToRight where
  start := ⟨{}, rfl, rfl⟩
  longEquals {o name value d next} named ends sets := by
    have spelled : ("--" ++ name ++ "=" ++ value).toList =
        '-' :: '-' :: (name.toList ++ '=' :: value.toList) := by
      simp
    have recognised := (Argument.ofString_long spelled (by simp)).trans (Argument.ofLong_equals named ends value)
    exact continues fun r ready => ready.joined recognised sets
  longApart {o name value d next} named ends isPlain sets := by
    have spelled : ("--" ++ name).toList = '-' :: '-' :: name.toList := by
      simp
    have filled : name.toList ≠ [] := by
      rw [← ValueOption.long_of_ofLong? named]
      exact mt String.toList_eq_nil_iff.mp o.long_ne
    have recognised := (Argument.ofString_long spelled filled).trans (Argument.ofLong_alone named ends)
    exact continues fun r ready => ready.apart recognised isPlain sets
  shortEquals {o letter value d next} named sets := by
    have spelled : ("-" ++ String.singleton letter ++ "=" ++ value).toList =
        '-' :: letter :: '=' :: value.toList := by
      simp
    have recognised := (Argument.ofString_short spelled named).trans (Argument.ofShort_equals named value)
    exact continues fun r ready => ready.joined recognised sets
  shortJoined {o letter value d next} named filled noEquals noDash sets := by
    have spelled : ("-" ++ String.singleton letter ++ value).toList = '-' :: letter :: value.toList := by
      simp
    have recognised :=
      (Argument.ofString_short spelled named).trans (Argument.ofShort_joined named filled noEquals)
    exact continues fun r ready => ready.joined recognised sets
  shortApart {o letter value d next} named isPlain sets := by
    have spelled : ("-" ++ String.singleton letter).toList = ['-', letter] := by
      simp
    have recognised := (Argument.ofString_short spelled named).trans (Argument.ofShort_alone named)
    exact continues fun r ready => ready.apart recognised isPlain sets
  counted d := continues fun r ready => ready.verbose
  positional isPlain fresh filled := continues fun r ready => ready.plain isPlain fresh filled
  separator d := continues fun r ready => ready.separator
  separated {arguments path d} before behind fresh filled := by
    obtain ⟨r, early, settled⟩ := before
    have onlyPlain : r.onlyPlain = true := (onlyPlain_foldlM early).mpr (.inr behind)
    obtain ⟨after, readPlain, final⟩ := readPlain_input settled fresh filled
    refine ⟨after, ?_, final⟩
    rw [List.foldlM_append, early]
    simp [read, onlyPlain, readPlain, bind, Except.bind, pure, Except.pure]
  result {arguments input d program data} whole given programSize dataSize := by
    obtain ⟨r, read, settled⟩ := whole
    change Configuration.ofArguments arguments = _
    simp [Configuration.ofArguments, read, settled, Draft.finish, given, programSize, dataSize,
      Except.mapError, bind, Except.bind, pure, Except.pure]

end Reader

end TwoPass.Invocation
