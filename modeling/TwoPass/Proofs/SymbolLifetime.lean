import Mathlib.Data.List.DropRight
import TwoPass.Proofs.Aftermath
import TwoPass.Proofs.Recording

/-! How long symbols live. A definition stays in the table until a driver gets done, and from
then on only later definitions count. What else happens to a session, and how its drivers are
stopped, does not matter to its symbols. -/
namespace TwoPass

/-- What matters to the symbols of a session. -/
inductive Milestone where
  | defined (symbol : Symbol)
  /-- A driver moved from running to done. -/
  | finished
deriving DecidableEq

namespace Milestone

def symbol? : Milestone → Option Symbol
  | .defined symbol => some symbol
  | .finished => none

/-- The definitions made since a driver last got done, or all if none ever did, oldest
first. -/
def live (milestones : List Milestone) : List Symbol :=
  (milestones.rtakeWhile (· ≠ .finished)).filterMap symbol?

theorem live_finished (milestones : List Milestone) : live (milestones ++ [.finished]) = [] := by
  simp [live]

theorem live_append {more : List Milestone} (unfinished : .finished ∉ more) (milestones : List Milestone) :
    live (milestones ++ more) = live milestones ++ more.filterMap symbol? := by
  induction more using List.reverseRecOn with
  | nil => simp
  | append_singleton more last ih =>
    rw [List.mem_append, List.mem_singleton, not_or] at unfinished
    have kept : ∀ before, live (before ++ [last]) = live before ++ [last].filterMap symbol? := by
      intro before
      simp [live, Ne.symm unfinished.2]
    rw [← List.append_assoc, kept, ih unfinished.1, List.filterMap_append, List.append_assoc]

end Milestone

namespace Machine

/-- The commands that end the replay; a driver that is done stays done. -/
def milestones : Machine → List Command → List Milestone
  | _, [] => []
  | machine, command :: rest =>
    let next := (machine.obey command).2
    (if machine.phase = .running ∧ next.phase = .done then [.finished] else []) ++ next.milestones rest

/-- A later state of a driver. Its table is unchanged unless the driver got done meanwhile,
and then it is empty. -/
structure Releases (machine next : Machine) : Prop where
  idle : machine.phase = .done → next = machine
  symbols : next.session.symbols =
    if machine.phase = .running ∧ next.phase = .done then .empty else machine.session.symbols

namespace Releases

theorem refl (machine : Machine) : machine.Releases machine := by
  refine ⟨fun _ => rfl, ?_⟩
  cases phase : machine.phase <;> simp

theorem trans {first second third : Machine} (early : first.Releases second)
    (late : second.Releases third) : first.Releases third := by
  -- Nothing follows once the driver is done; before that, the first part has released nothing.
  cases done : second.phase with
  | done => rwa [late.idle done]
  | running =>
    have started : first.phase = .running := by
      cases phase : first.phase with
      | running => rfl
      | done =>
        rw [early.idle phase, phase] at done
        contradiction
    refine ⟨fun finished => ?_, ?_⟩
    · rw [started] at finished
      contradiction
    · rw [late.symbols, early.symbols, done, started]
      simp

theorem step (machine : Machine) : machine.Releases machine.step.2 := by
  rcases stepped : machine.step with ⟨answer, next⟩
  cases step_outcome stepped with
  | idle session stack => exact refl _
  | finish | push | store | fault => exact ⟨fun done => by contradiction, by simp⟩

theorem obey (machine : Machine) (command : Command) : machine.Releases (machine.obey command).2 :=
  obey_keep (fun next releases => releases.trans (step next)) command (refl machine)

theorem obeyAll (machine : Machine) (commands : List Command) :
    machine.Releases (machine.obeyAll commands) :=
  obeyAll_keep (fun next releases => releases.trans (step next)) commands (refl machine)

end Releases

theorem obey_done {machine : Machine} (done : machine.phase = .done) (command : Command) :
    machine.obey command = (none, machine) := by
  obtain ⟨session, stack, phase⟩ := machine
  cases done
  cases command <;> rfl

/-- A driver that an error stops is still running. -/
theorem running_of_fault {machine : Machine} {command : Command} {fault : Fault}
    (failed : (machine.obey command).1 = some fault) : (machine.obey command).2.phase = .running := by
  have answered : machine.obey command = (some fault, (machine.obey command).2) := by rw [← failed]
  cases command with
  | step => exact (action_of_step answered).2.1
  | run =>
    obtain ⟨k, -, patches, left, -, -, -, stopped⟩ := state_of_run answered
    rw [stopped]

/-- Replaying a symbol pushes the value that the table has for it, if it has one. -/
theorem step_symbol {machine : Machine} {name : String} {line : Line} {pending : List Action}
    (running : machine.phase = .running)
    (queued : machine.session.pending = ⟨.symbol name, line⟩ :: pending) :
    machine.step = match machine.session.symbols.value? name with
      | some v => (none, ⟨{ machine.session with pending }, v :: machine.stack, .running⟩)
      | none =>
        (some (.undefinedSymbol name line), ⟨{ machine.session with pending }, machine.stack, .running⟩) := by
  obtain ⟨⟨sizes, program, data, symbols, _⟩, stack, _⟩ := machine
  cases running
  cases queued
  cases found : symbols.value? name <;> simp [step, Action.perform, SymbolTable.lookup, found, Except.map]

/-- A driver keeps the table equal to the definitions that are live. -/
theorem symbols_obeyAll (machine : Machine) {past : List Milestone}
    (live : machine.session.symbols.symbols = Milestone.live past) (commands : List Command) :
    (machine.obeyAll commands).session.symbols.symbols =
      Milestone.live (past ++ machine.milestones commands) := by
  induction commands generalizing machine past with
  | nil => rwa [milestones, List.append_nil]
  | cons command commands ih =>
    have released := (Releases.obey machine command).symbols
    rw [milestones, ← List.append_assoc]
    apply ih
    rw [released]
    split
    · rw [Milestone.live_finished]
      rfl
    · rwa [List.append_nil]

end Machine

namespace Session

/-- Everything in a history that matters to the symbols. -/
def milestones : Session → List Occurrence → List Milestone
  | _, [] => []
  | s, .call c :: rest => (c.symbol?.map .defined).toList ++ (s.occur (.call c)).milestones rest
  | s, .drive commands :: rest =>
    (Machine.start s).milestones commands ++ (s.occur (.drive commands)).milestones rest

theorem symbols_call (s : Session) (c : Call) :
    (s.call c).2.symbols.symbols = s.symbols.symbols ++ c.symbol?.toList := by
  cases c with
  | place m v line => cases m <;> exact (List.append_nil _).symm
  | define symbol => rfl
  | defer action => exact (List.append_nil _).symm

/-- Over every history the table holds the definitions that are live. -/
theorem symbols_after {s : Session} {past : List Milestone}
    (live : s.symbols.symbols = Milestone.live past) (history : List Occurrence) :
    (s.after history).symbols.symbols = Milestone.live (past ++ s.milestones history) := by
  induction history generalizing s past with
  | nil => rwa [milestones, List.append_nil]
  | cons occurrence history ih =>
    cases occurrence with
    | call c =>
      have fresh : .finished ∉ (c.symbol?.map Milestone.defined).toList := by
        cases c.symbol? <;> simp
      have added : (c.symbol?.map Milestone.defined).toList.filterMap Milestone.symbol? =
          c.symbol?.toList := by
        cases c.symbol? <;> rfl
      rw [milestones, ← List.append_assoc]
      apply ih
      rw [Milestone.live_append fresh, added, ← live]
      exact s.symbols_call c
    | drive commands =>
      rw [milestones, ← List.append_assoc]
      exact ih (Machine.symbols_obeyAll (Machine.start s) live commands)

theorem value?_after_of_unfinished {s : Session} {history : List Occurrence} {past : List Milestone}
    (live : s.symbols.symbols = Milestone.live past) (unfinished : .finished ∉ s.milestones history)
    {name : String} {v : Value} (value : s.symbols.value? name = some v) :
    (s.after history).symbols.value? name = some v := by
  have later := symbols_after live history
  rw [Milestone.live_append unfinished, ← live] at later
  obtain ⟨symbol, found, rfl⟩ := Option.map_eq_some_iff.mp value
  rw [SymbolTable.find?] at found
  rw [SymbolTable.value?, SymbolTable.find?, later, List.find?_append, found]
  rfl

/-- The lifetime of symbols, over every history of calls and of drivers, the last of which may
still be at work. The value of a name, and what replaying the name pushes, is that of its
first definition since a driver last got done; without such a definition there is none. A
driver that is dropped or fails before it is done releases nothing, one that is done does
nothing any more, and until some driver gets done no value changes. -/
theorem symbol_lifetime (sizes : Sizes) (history : List Occurrence) (commands : List Machine.Command) :
    let session := (start sizes).after history
    let driver := (Machine.start session).obeyAll commands
    let live := Milestone.live
      ((start sizes).milestones history ++ (Machine.start session).milestones commands)
    (∀ name,
      driver.session.symbols.value? name = (live.find? (·.name = name)).map (·.value) ∧
      ∀ line pending, driver.phase = .running →
        driver.session.pending = ⟨.symbol name, line⟩ :: pending →
        (∀ symbol, live.find? (·.name = name) = some symbol →
          driver.step.1 = none ∧ driver.step.2.stack = symbol.value :: driver.stack) ∧
        (driver.step.1 = some (.undefinedSymbol name line) ↔ ∀ symbol ∈ live, symbol.name ≠ name)) ∧
    (driver.phase = .running → driver.session.symbols = session.symbols) ∧
    (∀ command fault, (driver.obey command).1 = some fault →
      (driver.obey command).2.session.symbols = session.symbols) ∧
    (driver.phase = .done → ∀ command, driver.obey command = (none, driver)) ∧
    ∀ more, .finished ∉ session.milestones more → ∀ name v, session.symbols.value? name = some v →
      (session.after more).symbols.value? name = some v := by
  intro session driver live
  have recorded : session.symbols.symbols = Milestone.live ((start sizes).milestones history) := by
    have empty : (start sizes).symbols.symbols = Milestone.live [] := rfl
    have table := symbols_after empty history
    rwa [List.nil_append] at table
  have table : driver.session.symbols.symbols = live :=
    Machine.symbols_obeyAll (Machine.start session) recorded commands
  have value : ∀ name, driver.session.symbols.value? name =
      (live.find? (·.name = name)).map (·.value) := by
    intro name
    rw [SymbolTable.value?, SymbolTable.find?, table]
  have released := Machine.Releases.obeyAll (Machine.start session) commands
  refine ⟨fun name => ⟨value name, ?_⟩, ?_, ?_, Machine.obey_done, ?_⟩
  · intro line pending running queued
    rw [Machine.step_symbol running queued, value name]
    constructor
    · intro symbol found
      rw [found]
      exact ⟨rfl, rfl⟩
    · have absent := List.find?_eq_none (p := fun symbol => decide (symbol.name = name)) (l := live)
      simp only [decide_eq_true_eq] at absent
      rw [← absent]
      cases live.find? (·.name = name) <;> simp
  · intro running
    rw [released.symbols, running]
    simp [Machine.start]
  · intro command fault failed
    have still := Machine.running_of_fault failed
    rw [(released.trans (Machine.Releases.obey driver command)).symbols, still]
    simp [Machine.start]
  · intro more unfinished name v defined
    exact value?_after_of_unfinished recorded unfinished defined

/-- A second definition counts only if a driver got done in between. -/
example :
    let s := (start {}).after [.call (.define ⟨"x", 1, 1⟩), .call (.define ⟨"x", 2, 2⟩)]
    let t := s.after [.drive [.run], .drive [.step], .call (.define ⟨"x", 3, 3⟩)]
    s.symbols.value? "x" = some 1 ∧ t.symbols.value? "x" = some 3 := by decide

end Session
end TwoPass
